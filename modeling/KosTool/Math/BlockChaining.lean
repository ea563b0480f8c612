import Mathlib.Data.List.Basic

/-! # Block ciphers in rounds, and chains of blocks

A cipher that stirs, mixes and whitens a block in rounds is undone by the inverse steps in the reverse order of the keys. A
chain that masks each block with the one before it is undone by the chain of the inverse cipher.
-/

namespace BlockChaining

universe u v

section Rounds

variable {β : Type u} {κ : Type v} (whiten : κ → β → β) (stir unstir mix unmix : β → β)

/-- Each round stirs, mixes and whitens with its key. -/
def rounds (keys : List κ) (block : β) : β := keys.foldl (fun block key => whiten key (mix (stir block))) block

/-- Each round goes back over the stirring, the whitening and the mixing. -/
def unrounds (keys : List κ) (block : β) : β := keys.foldl (fun block key => unmix (whiten key (unstir block))) block

/-- The last round does not mix. -/
def encipher (first : κ) (keys : List κ) (last : κ) (block : β) : β :=
  whiten last (stir (rounds whiten stir mix keys (whiten first block)))

def decipher (first : κ) (keys : List κ) (last : κ) (block : β) : β :=
  whiten first (unstir (unrounds whiten unstir unmix keys (whiten last block)))

variable {whiten stir unstir mix unmix}

theorem unrounds_rounds (whitened : ∀ key block, whiten key (whiten key block) = block)
    (stirred : ∀ block, unstir (stir block) = block) (mixed : ∀ block, unmix (mix block) = block) (keys : List κ) (block : β) :
    unrounds whiten unstir unmix keys.reverse (stir (rounds whiten stir mix keys block)) = stir block := by
  induction keys generalizing block with
  | nil => rfl
  | cons key rest ih =>
    have behind := ih (whiten key (mix (stir block)))
    rw [List.reverse_cons, unrounds, List.foldl_append]
    rw [unrounds] at behind
    change unmix (whiten key (unstir (List.foldl _ (stir (rounds whiten stir mix rest (whiten key (mix (stir block))))) _))) = _
    rw [behind, stirred, whitened, mixed]

/-- The steps in the reverse order give the block back. -/
theorem decipher_encipher (whitened : ∀ key block, whiten key (whiten key block) = block)
    (stirred : ∀ block, unstir (stir block) = block) (mixed : ∀ block, unmix (mix block) = block) (first last : κ)
    (keys : List κ) (block : β) :
    decipher whiten unstir unmix first keys.reverse last (encipher whiten stir mix first keys last block) = block := by
  rw [decipher, encipher, whitened, unrounds_rounds whitened stirred mixed, stirred, whitened]

end Rounds

section Chain

variable {β : Type u} (encrypt decrypt : β → β) (mask : β → β → β)

/-- Each block is masked with the ciphertext before it. -/
def chain : β → List β → List β
  | _, [] => []
  | previous, block :: rest => encrypt (mask block previous) :: chain (encrypt (mask block previous)) rest

def unchain : β → List β → List β
  | _, [] => []
  | previous, cipher :: rest => mask (decrypt cipher) previous :: unchain cipher rest

@[simp] theorem length_chain (previous : β) (blocks : List β) : (chain encrypt mask previous blocks).length = blocks.length := by
  induction blocks generalizing previous with
  | nil => rfl
  | cons block rest ih => rw [chain, List.length_cons, List.length_cons, ih]

@[simp] theorem length_unchain (previous : β) (blocks : List β) :
    (unchain decrypt mask previous blocks).length = blocks.length := by
  induction blocks generalizing previous with
  | nil => rfl
  | cons block rest ih => rw [unchain, List.length_cons, List.length_cons, ih]

variable {encrypt decrypt mask}

theorem unchain_chain (inverse : ∀ block, decrypt (encrypt block) = block)
    (masked : ∀ block other, mask (mask block other) other = block) (previous : β) (blocks : List β) :
    unchain decrypt mask previous (chain encrypt mask previous blocks) = blocks := by
  induction blocks generalizing previous with
  | nil => rfl
  | cons block rest ih => rw [chain, unchain, inverse, masked, ih]

end Chain

end BlockChaining
