namespace SandboxVm.Text

/-- The character that stands for bytes that are no text. -/
def replacementChar : Char := '\ufffd'

/-- The bytes that may come second in a longer encoding, by its first byte. -/
def secondRange (first : UInt8) : UInt8 × UInt8 :=
  if first = 0xe0 then (0xa0, 0xbf)
  else if first = 0xed then (0x80, 0x9f)
  else if first = 0xf0 then (0x90, 0xbf)
  else if first = 0xf4 then (0x80, 0x8f)
  else (0x80, 0xbf)

/-- The number of bytes of an encoding, by its first byte; zero if it starts none. -/
def encodingLength (first : UInt8) : Nat :=
  if first < 0x80 then 1
  else if 0xc2 ≤ first ∧ first ≤ 0xdf then 2
  else if 0xe0 ≤ first ∧ first ≤ 0xef then 3
  else if 0xf0 ≤ first ∧ first ≤ 0xf4 then 4
  else 0

/-- How many bytes after the first fit an encoding with `n` more bytes. -/
def fittingBytes (first : UInt8) (n : Nat) (rest : List UInt8) : Nat :=
  let (lo, hi) := secondRange first
  match n, rest with
  | 0, _ | _, [] => 0
  | n + 1, second :: rest =>
    if second < lo ∨ hi < second then 0
    else 1 + ((rest.take n).takeWhile fun b => 0x80 ≤ b && b ≤ 0xbf).length

def codePoint (first : UInt8) (rest : List UInt8) : Nat :=
  let top := match rest.length with
    | 0 => first.toNat
    | 1 => first.toNat % 32
    | 2 => first.toNat % 16
    | _ => first.toNat % 8
  rest.foldl (fun n b => 64 * n + b.toNat % 64) top

/-- Decode text. Each longest start of an encoding that is not completed, and
each byte that starts none, becomes a replacement character. `fuel` bounds the
number of characters. -/
def decodeLossyAux : (fuel : Nat) → List UInt8 → List Char
  | 0, _ | _, [] => []
  | fuel + 1, first :: rest =>
    let n := encodingLength first
    if n = 0 then replacementChar :: decodeLossyAux fuel rest
    else
      let fitting := fittingBytes first (n - 1) rest
      let c :=
        if fitting = n - 1 then Char.ofNat (codePoint first (rest.take fitting))
        else replacementChar
      c :: decodeLossyAux fuel (rest.drop fitting)

/-- Decode text, with replacement characters for what is none. -/
def decodeLossy (bytes : List UInt8) : String :=
  String.ofList (decodeLossyAux bytes.length bytes)

end SandboxVm.Text
