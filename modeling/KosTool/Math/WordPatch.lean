import KosTool.Math.ByteWord

/-! # Little-endian words in a buffer, and patches in place

A patch rewrites one word by what the buffer holds at the words that it reads. Patches of which none rewrites a word
that a later one reads or rewrites all find the words that were there before the first.
-/

namespace WordPatch

open ByteWord

/-- The little-endian word at an offset. -/
def rd32 (buffer : Buffer) (offset : ℕ) : Word :=
  ofBe32 (buffer (offset + 3)) (buffer (offset + 2)) (buffer (offset + 1)) (buffer offset)

/-- The four bytes of a word, least significant first. -/
def le32 (word : Word) : List Byte := (be32 word).reverse

@[simp] theorem length_le32 (word : Word) : (le32 word).length = 4 := rfl

/-- The word is stored at an offset. -/
def wr32 (buffer : Buffer) (offset : ℕ) (word : Word) : Buffer := storeAt buffer offset (le32 word)

/-- Two words share no byte. -/
def Apart (first second : ℕ) : Prop := first + 4 ≤ second ∨ second + 4 ≤ first

instance (first second : ℕ) : Decidable (Apart first second) := instDecidableOr

theorem Apart.symm {first second : ℕ} (apart : Apart first second) : Apart second first := Or.symm apart

theorem rd32_congr {first second : Buffer} {offset : ℕ} (same : ∀ i < 4, first (offset + i) = second (offset + i)) :
    rd32 first offset = rd32 second offset := by
  have zeroth := same 0 (by decide)
  rw [Nat.add_zero] at zeroth
  rw [rd32, rd32, zeroth, same 1 (by decide), same 2 (by decide), same 3 (by decide)]

theorem wr32_outside (buffer : Buffer) {offset i : ℕ} (word : Word) (outside : i < offset ∨ offset + 4 ≤ i) :
    wr32 buffer offset word i = buffer i := storeAt_outside buffer outside

theorem rd32_wr32 (buffer : Buffer) (offset : ℕ) (word : Word) : rd32 (wr32 buffer offset word) offset = word := by
  have byteAt (i : ℕ) (inside : i < (le32 word).length) :
      wr32 buffer offset word (offset + i) = (le32 word)[i] := by
    rw [wr32, storeAt_add, overlay_of_lt inside]
  have zeroth := byteAt 0 (by simp)
  rw [Nat.add_zero] at zeroth
  rw [rd32, zeroth, byteAt 1 (by simp), byteAt 2 (by simp), byteAt 3 (by simp)]
  exact ofBe32_extract word

/-- A word is known by its four bytes. -/
theorem rd32_of_slice {buffer : Buffer} {offset : ℕ} {word : Word} (same : slice buffer offset 4 = le32 word) :
    rd32 buffer offset = word := by
  refine Eq.trans (rd32_congr fun i inside => ?_) (rd32_wr32 buffer offset word)
  have here : i < (le32 word).length := inside
  have there : i < (slice buffer offset 4).length := by rwa [length_slice]
  have byte := List.getElem_of_eq same there
  rw [getElem_slice] at byte
  rw [wr32, storeAt_add, overlay_of_lt here]
  exact byte

theorem rd32_wr32_apart (buffer : Buffer) {place offset : ℕ} (word : Word) (apart : Apart place offset) :
    rd32 (wr32 buffer place word) offset = rd32 buffer offset :=
  rd32_congr fun i inside => wr32_outside buffer word (by rcases apart with before | behind <;> omega)

/-- A word to rewrite, with the words that decide its new value. -/
structure Patch where
  place : ℕ
  reads : List ℕ
  word : Buffer → Word
  local_word : ∀ first second : Buffer, (∀ offset ∈ reads, rd32 first offset = rd32 second offset) →
    word first = word second

namespace Patch

/-- A word is rewritten by what it is. -/
def own (place : ℕ) (f : Word → Word) : Patch where
  place
  reads := [place]
  word buffer := f (rd32 buffer place)
  local_word _ _ same := congrArg f (same place List.mem_cons_self)

/-- A word is rewritten by what it is and by another word. -/
def beside (place other : ℕ) (f : Word → Word → Word) : Patch where
  place
  reads := [place, other]
  word buffer := f (rd32 buffer place) (rd32 buffer other)
  local_word _ _ same :=
    congrArg₂ f (same place List.mem_cons_self) (same other (List.mem_cons_of_mem _ List.mem_cons_self))

/-- A word is written by what another word is. -/
def copy (place other : ℕ) (f : Word → Word) : Patch where
  place
  reads := [other]
  word buffer := f (rd32 buffer other)
  local_word _ _ same := congrArg f (same other List.mem_cons_self)

/-- The patch in place. -/
def apply (patch : Patch) (buffer : Buffer) : Buffer := wr32 buffer patch.place (patch.word buffer)

/-- The first patch rewrites nothing that the second one reads or rewrites. -/
structure Spares (first second : Patch) : Prop where
  apart : Apart first.place second.place
  unread : ∀ offset ∈ second.reads, Apart first.place offset

/-- A spared patch computes the same word behind the other. -/
theorem Spares.word_apply {first second : Patch} (spares : first.Spares second) (buffer : Buffer) :
    second.word (first.apply buffer) = second.word buffer :=
  second.local_word _ _ fun offset read => rd32_wr32_apart buffer _ (spares.unread offset read)

end Patch

/-- The patches in their order. -/
def run (patches : List Patch) (buffer : Buffer) : Buffer := patches.foldl (fun buffer patch => patch.apply buffer) buffer

@[simp] theorem run_nil (buffer : Buffer) : run [] buffer = buffer := rfl

@[simp] theorem run_cons (patch : Patch) (rest : List Patch) (buffer : Buffer) :
    run (patch :: rest) buffer = run rest (patch.apply buffer) := rfl

theorem run_append (first second : List Patch) (buffer : Buffer) :
    run (first ++ second) buffer = run second (run first buffer) := List.foldl_append

/-- A byte outside every place stays. -/
theorem run_outside {patches : List Patch} {i : ℕ} (outside : ∀ patch ∈ patches, i < patch.place ∨ patch.place + 4 ≤ i)
    (buffer : Buffer) : run patches buffer i = buffer i := by
  induction patches generalizing buffer with
  | nil => rfl
  | cons patch rest ih =>
    rw [run_cons, ih fun other member => outside other (List.mem_cons_of_mem _ member)]
    exact wr32_outside buffer _ (outside patch List.mem_cons_self)

/-- A word apart from every place stays. -/
theorem rd32_run_apart {patches : List Patch} {offset : ℕ} (apart : ∀ patch ∈ patches, Apart patch.place offset)
    (buffer : Buffer) : rd32 (run patches buffer) offset = rd32 buffer offset := by
  refine rd32_congr fun i inside => run_outside (fun patch member => ?_) buffer
  rcases apart patch member with before | behind <;> omega

/-- Where every patch spares the later ones, each place holds what its patch computes from the first buffer. -/
theorem rd32_run {patches : List Patch} (spares : patches.Pairwise Patch.Spares) {patch : Patch}
    (member : patch ∈ patches) (buffer : Buffer) : rd32 (run patches buffer) patch.place = patch.word buffer := by
  induction patches generalizing buffer with
  | nil => nomatch member
  | cons head rest ih =>
    obtain ⟨first, others⟩ := List.pairwise_cons.mp spares
    rw [run_cons]
    rcases List.mem_cons.mp member with rfl | later
    · rw [rd32_run_apart fun other inside => ((first other inside).apart).symm]
      exact rd32_wr32 buffer _ _
    · rw [ih others later, (first patch later).word_apply]

end WordPatch
