namespace SandboxVm

/-- The unit of computation: a signed 32-bit integer. -/
abbrev Word := Int32

namespace Word

/-- The four bytes of a word, least significant first. -/
def toBytes (w : Word) : List UInt8 :=
  let u := w.toUInt32
  [u.toUInt8, (u >>> 8).toUInt8, (u >>> 16).toUInt8, (u >>> 24).toUInt8]

/-- The word whose bytes, least significant first, are the given four. -/
def ofBytes (b₀ b₁ b₂ b₃ : UInt8) : Word :=
  (b₀.toUInt32 + (b₁.toUInt32 <<< 8) + (b₂.toUInt32 <<< 16) + (b₃.toUInt32 <<< 24)).toInt32

@[simp] theorem length_toBytes (w : Word) : (toBytes w).length = 4 := rfl

/-- The words stored one after another in a byte list. A remainder of fewer
than four bytes is dropped. -/
def listOfBytes : List UInt8 → List Word
  | b₀ :: b₁ :: b₂ :: b₃ :: rest => ofBytes b₀ b₁ b₂ b₃ :: listOfBytes rest
  | _ => []

def listToBytes (ws : List Word) : List UInt8 :=
  ws.flatMap toBytes

/-- The word at the start of an array of bytes. -/
def ofByteArray (bytes : ByteArray) : Word :=
  (listOfBytes bytes.data.toList).headD 0

def toByteArray (w : Word) : ByteArray := ⟨(toBytes w).toArray⟩

@[simp] theorem length_listToBytes (ws : List Word) :
    (listToBytes ws).length = 4 * ws.length := by
  induction ws with
  | nil => rfl
  | cons w ws ih =>
      simp only [listToBytes, List.flatMap_cons, List.length_append, length_toBytes,
        List.length_cons] at ih ⊢
      omega

end Word

end SandboxVm
