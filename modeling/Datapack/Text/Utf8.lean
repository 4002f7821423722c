/-
Reading bytes as UTF-8. Text that came from outside may hold bytes that
are not UTF-8: `decode?` refuses them, and `decodeLossy` shows each
longest run of bytes that begins a character without completing it as one
replacement character.
-/
namespace Datapack.Text

/-- Stands for bytes that are not UTF-8. -/
def replacementChar : Char := '�'

/-- The second byte may follow this first byte: over-long forms,
surrogates and numbers above the last code point are excluded here. -/
def followsLead (lead second : UInt8) : Bool :=
  if lead = 0xE0 then 0xA0 ≤ second && second ≤ 0xBF
  else if lead = 0xED then 0x80 ≤ second && second ≤ 0x9F
  else if lead = 0xF0 then 0x90 ≤ second && second ≤ 0xBF
  else if lead = 0xF4 then 0x80 ≤ second && second ≤ 0x8F
  else 0x80 ≤ second && second ≤ 0xBF

/-- The byte continues a character. -/
def isContinuation (b : UInt8) : Bool :=
  0x80 ≤ b && b ≤ 0xBF

/-- The six low bits, which a continuation byte contributes. -/
def payload (b : UInt8) : Nat :=
  b.toNat % 64

/-- The characters of the bytes, with a replacement character for each
part that is not UTF-8. -/
def decodeLossy : List UInt8 → List Char
  | [] => []
  | a :: rest =>
    if a < 0x80 then Char.ofNat a.toNat :: decodeLossy rest
    else if a < 0xC2 || 0xF4 < a then replacementChar :: decodeLossy rest
    else
      match rest with
      | [] => [replacementChar]
      | b :: rest =>
        if !followsLead a b then replacementChar :: decodeLossy (b :: rest)
        else if a < 0xE0 then
          Char.ofNat (a.toNat % 32 * 64 + payload b) :: decodeLossy rest
        else
          match rest with
          | [] => [replacementChar]
          | c :: rest =>
            if !isContinuation c then replacementChar :: decodeLossy (c :: rest)
            else if a < 0xF0 then
              Char.ofNat (a.toNat % 16 * 4096 + payload b * 64 + payload c)
                :: decodeLossy rest
            else
              match rest with
              | [] => [replacementChar]
              | d :: rest =>
                if !isContinuation d then
                  replacementChar :: decodeLossy (d :: rest)
                else
                  Char.ofNat
                    (a.toNat % 8 * 262144 + payload b * 4096
                      + payload c * 64 + payload d) :: decodeLossy rest

/-- The text of bytes that are UTF-8. -/
def decode? (bytes : List UInt8) : Option String :=
  String.fromUTF8? ⟨bytes.toArray⟩

/-- The text that shows the bytes, whatever they are. -/
def display (bytes : List UInt8) : String :=
  (decode? bytes).getD (String.ofList (decodeLossy bytes))

/-- The bytes of a text. -/
def encode (text : String) : List UInt8 :=
  text.toUTF8.data.toList

end Datapack.Text
