import KosTool.Soundness.CheckedSums
import KosTool.Model.Disc.Xiso
import Mathlib.Algebra.BigOperators.Ring.List

/-! # The tables of an XISO image are search trees

The children of a directory are sorted by their names. The entries of a range stand behind that of its middle, those of the
left half before those of the right, and a search that compares names finds each of them as long as no offset wraps.
-/

namespace KosTool.Xiso

open ByteWord WordPatch Placement Fallible Extent
open Elf2irx (orDie orDie_eq_ok)

section Names

/-- What names are compared by. -/
def key (name : List Byte) : List ℕ := name.map fun c => (up c).toNat

theorem xdvdfsCmp_neg {a b : List Byte} (rightful : ∀ c ∈ b, c ≠ 0) : xdvdfsCmp a b < 0 ↔ key a < key b := by
  induction a generalizing b with
  | nil =>
    cases b with
    | nil => exact ⟨nofun, nofun⟩
    | cons c rest =>
      have positive : 0 < c.toNat := Nat.pos_of_ne_zero fun zero =>
        rightful c List.mem_cons_self (BitVec.eq_of_toNat_eq zero)
      refine ⟨fun _ => List.nil_lt_cons _ _, fun _ => ?_⟩
      rw [xdvdfsCmp]
      omega
  | cons c rest ih =>
    cases b with
    | nil =>
      refine ⟨fun less => ?_, nofun⟩
      rw [xdvdfsCmp] at less
      omega
    | cons c' rest' =>
      have tail := ih (b := rest') fun other member => rightful other (List.mem_cons_of_mem _ member)
      rw [key, key, List.map_cons, List.map_cons, List.cons_lt_cons_iff, xdvdfsCmp]
      split_ifs with differ
      · omega
      · rw [tail]
        constructor
        · exact fun less => .inr ⟨by omega, less⟩
        · rintro (less | ⟨-, less⟩)
          · omega
          · exact less

theorem xdvdfsCmp_eq_zero {a b : List Byte} (rightful : ∀ c ∈ a, c ≠ 0) (rightful' : ∀ c ∈ b, c ≠ 0) :
    xdvdfsCmp a b = 0 ↔ key a = key b := by
  induction a generalizing b with
  | nil =>
    cases b with
    | nil => exact ⟨fun _ => rfl, fun _ => rfl⟩
    | cons c rest =>
      refine ⟨fun zero => absurd (BitVec.eq_of_toNat_eq ?_) (rightful' c List.mem_cons_self), nofun⟩
      rw [xdvdfsCmp] at zero
      change c.toNat = 0
      omega
  | cons c rest ih =>
    cases b with
    | nil =>
      refine ⟨fun zero => absurd (BitVec.eq_of_toNat_eq ?_) (rightful c List.mem_cons_self), nofun⟩
      rw [xdvdfsCmp] at zero
      change c.toNat = 0
      omega
    | cons c' rest' =>
      have tail := ih (b := rest') (fun other member => rightful other (List.mem_cons_of_mem _ member))
        fun other member => rightful' other (List.mem_cons_of_mem _ member)
      rw [key, key, List.map_cons, List.map_cons, List.cons_eq_cons, xdvdfsCmp]
      split_ifs with differ
      · omega
      · rw [tail]
        exact ⟨fun same => ⟨by omega, same⟩, And.right⟩

theorem nodeName_rightful (name : List Byte) : ∀ c ∈ nodeName name, c ≠ 0 := by
  intro c member
  have kept := List.mem_takeWhile_imp (List.mem_of_mem_take member)
  exact bne_iff_ne.mp kept

theorem length_nodeName (name : List Byte) : (nodeName name).length ≤ 255 := by
  rw [nodeName, List.length_take]
  exact min_le_left _ _

end Names

section Scan

mutual

/-- A node and all below it. -/
def treeNodes : Node → List Node
  | .file name data => [.file name data]
  | .dir name kids => .dir name kids :: below kids

/-- All nodes of a forest. -/
def below : List Node → List Node
  | [] => []
  | node :: rest => treeNodes node ++ below rest

end

/-- The names of nodes stand in their order. -/
def Sorted (nodes : List Node) : Prop := (nodes.map fun node => key node.name).Pairwise (· ≤ ·)

/-- What the scan makes sure of for a node. -/
structure Scanned (node : Node) : Prop where
  rightful : ∀ c ∈ node.name, c ≠ 0
  short : node.name.length ≤ 255
  small : ∀ name data, node = .file name data → data.length ≤ 2 ^ 32 - 1
  sorted : ∀ name kids, node = .dir name kids → Sorted kids

theorem mem_treeNodes_self (node : Node) : node ∈ treeNodes node := by
  cases node with
  | file name data => exact List.mem_singleton_self _
  | dir name kids => exact List.mem_cons_self

theorem below_eq_flatMap (nodes : List Node) : below nodes = nodes.flatMap treeNodes := by
  induction nodes with
  | nil => rfl
  | cons node rest ih => rw [below, List.flatMap_cons, ih]

theorem below_append (nodes others : List Node) : below (nodes ++ others) = below nodes ++ below others := by
  rw [below_eq_flatMap, below_eq_flatMap, below_eq_flatMap, List.flatMap_append]

theorem mem_below {node : Node} {nodes : List Node} (member : node ∈ nodes) : node ∈ below nodes := by
  rw [below_eq_flatMap]
  exact List.mem_flatMap.mpr ⟨node, member, mem_treeNodes_self node⟩

/-- What is below a directory is below what it is below. -/
theorem mem_below_trans {node : Node} {name : List Byte} {nodes kids : List Node} (member : .dir name kids ∈ nodes)
    (deeper : node ∈ below kids) : node ∈ below nodes := by
  rw [below_eq_flatMap]
  exact List.mem_flatMap.mpr ⟨_, member, List.mem_cons_of_mem _ deeper⟩

theorem sorted_insertionSort {kids : List Node} (rightful : ∀ node ∈ kids, ∀ c ∈ node.name, c ≠ 0) :
    Sorted (kids.insertionSort NodeLe) := by
  have same := List.map_insertionSort (r := NodeLe) (s := fun a b : List ℕ => a ≤ b) (fun node => key node.name) kids
    fun a member b member' => by
      rw [← not_lt, NodeLe, Int.le_iff_lt_or_eq, xdvdfsCmp_neg (rightful b member'),
        xdvdfsCmp_eq_zero (rightful a member) (rightful b member'), not_lt, le_iff_lt_or_eq]
  rw [Sorted, same]
  exact List.pairwise_insertionSort _ _

mutual

theorem scan_scanned : ∀ {host node : Node}, scan host = .ok node → ∀ deep ∈ treeNodes node, Scanned deep
  | .file name data, node, accepted => by
    obtain ⟨⟨⟩, small, accepted⟩ := bind_eq_ok.mp accepted
    cases pure_eq_ok.mp accepted
    intro deep member
    cases List.mem_singleton.mp member
    refine ⟨nodeName_rightful name, length_nodeName name, fun name' data' same => ?_, nofun⟩
    cases same
    exact of_decide_eq_true (orDie_eq_ok small)
  | .dir name entries, node, accepted => by
    obtain ⟨kids, through, accepted⟩ := bind_eq_ok.mp accepted
    cases pure_eq_ok.mp accepted
    have all := scanAll_scanned through
    intro deep member
    rcases List.mem_cons.mp member with rfl | member
    · refine ⟨nodeName_rightful name, length_nodeName name, nofun, fun name' kids' same => ?_⟩
      cases same
      exact sorted_insertionSort fun kid inside => (all kid (mem_below inside)).rightful
    · rw [below_eq_flatMap] at member
      obtain ⟨kid, inside, deeper⟩ := List.mem_flatMap.mp member
      refine all deep ?_
      rw [below_eq_flatMap]
      exact List.mem_flatMap.mpr ⟨kid, (List.perm_insertionSort _ kids).mem_iff.mp inside, deeper⟩

theorem scanAll_scanned : ∀ {entries kids : List Node}, scanAll entries = .ok kids → ∀ deep ∈ below kids, Scanned deep
  | [], kids, accepted => by
    cases accepted
    exact nofun
  | entry :: rest, kids, accepted => by
    rw [scanAll] at accepted
    split_ifs at accepted with skipped
    · exact scanAll_scanned accepted
    · obtain ⟨kid, first, accepted⟩ := bind_eq_ok.mp accepted
      obtain ⟨others, behind, accepted⟩ := bind_eq_ok.mp accepted
      cases pure_eq_ok.mp accepted
      intro deep member
      rcases List.mem_append.mp member with early | late
      · exact scan_scanned first deep early
      · exact scanAll_scanned behind deep late

end

end Scan

section Layout

/-- A range is its left half, its middle and its right half. -/
theorem layoutTree_split {bytes : List ℕ} (some : bytes ≠ []) (steps cursor : ℕ) : ∃ front b back,
    bytes = front ++ b :: back ∧ front.length = (bytes.length - 1) / 2 ∧
      layoutTree (steps + 1) bytes cursor =
        ⟨(layoutTree steps front ((cursor + b) % 2 ^ 32)).slots ++
          [⟨cursor, (layoutTree steps front ((cursor + b) % 2 ^ 32)).root,
            (layoutTree steps back (layoutTree steps front ((cursor + b) % 2 ^ 32)).cursor).root⟩] ++
          (layoutTree steps back (layoutTree steps front ((cursor + b) % 2 ^ 32)).cursor).slots,
        (layoutTree steps back (layoutTree steps front ((cursor + b) % 2 ^ 32)).cursor).cursor, cursor / 4 % 2 ^ 16⟩ := by
  have positive := List.length_pos_iff.mpr some
  have inside : (bytes.length - 1) / 2 < bytes.length := by omega
  refine ⟨bytes.take ((bytes.length - 1) / 2), bytes.getD ((bytes.length - 1) / 2) 0, bytes.drop ((bytes.length - 1) / 2 + 1),
    ?_, ?_, ?_⟩
  · rw [List.getD_eq_getElem _ _ inside, List.getElem_cons_drop, List.take_append_drop]
  · rw [List.length_take]
    omega
  · cases bytes with
    | nil => exact absurd rfl some
    | cons first rest => rfl

theorem layoutTree_nil (steps cursor : ℕ) : layoutTree steps [] cursor = ⟨[], cursor, 0⟩ := by
  cases steps with
  | zero => rfl
  | succ steps => rfl

variable {steps cursor : ℕ} {bytes : List ℕ}

theorem length_slots (enough : bytes.length ≤ steps) : (layoutTree steps bytes cursor).slots.length = bytes.length := by
  induction steps generalizing bytes cursor with
  | zero =>
    obtain rfl := List.length_eq_zero_iff.mp (Nat.le_zero.mp enough)
    rfl
  | succ steps ih =>
    cases bytes with
    | nil => rfl
    | cons first rest =>
      obtain ⟨front, b, back, split, -, laid⟩ := layoutTree_split (List.cons_ne_nil first rest) steps cursor
      rw [laid]
      rw [split] at enough ⊢
      rw [List.length_append, List.length_cons] at enough
      rw [List.length_append, List.length_append, List.length_singleton, ih (by omega), ih (by omega), List.length_append,
        List.length_cons, Nat.add_assoc, Nat.add_comm 1]

/-- The cursor goes over all entries, in 32 bits. -/
theorem layout_cursor (below : cursor < 2 ^ 32) (enough : bytes.length ≤ steps) :
    (layoutTree steps bytes cursor).cursor = (cursor + bytes.sum) % 2 ^ 32 := by
  induction steps generalizing bytes cursor with
  | zero =>
    obtain rfl := List.length_eq_zero_iff.mp (Nat.le_zero.mp enough)
    exact (Nat.mod_eq_of_lt below).symm
  | succ steps ih =>
    cases bytes with
    | nil => exact (Nat.mod_eq_of_lt below).symm
    | cons first rest =>
      obtain ⟨front, b, back, split, -, laid⟩ := layoutTree_split (List.cons_ne_nil first rest) steps cursor
      rw [laid]
      rw [split] at enough ⊢
      rw [List.length_append, List.length_cons] at enough
      have half := ih (Nat.mod_lt (cursor + b) (by decide)) (by omega : front.length ≤ steps)
      have under : (layoutTree steps front ((cursor + b) % 2 ^ 32)).cursor < 2 ^ 32 := by
        rw [half]
        exact Nat.mod_lt _ (by decide)
      have whole := ih under (by omega : back.length ≤ steps)
      dsimp only
      rw [whole, half, List.sum_append, List.sum_cons]
      omega

/-- The root of a range that has entries is the first of them. -/
theorem layout_root (cursor : ℕ) (some : bytes ≠ []) (enough : bytes.length ≤ steps) :
    (layoutTree steps bytes cursor).root = cursor / 4 % 2 ^ 16 ∧
      ∃ slot ∈ (layoutTree steps bytes cursor).slots, slot.entOff = cursor := by
  cases steps with
  | zero => exact absurd (List.length_eq_zero_iff.mp (Nat.le_zero.mp enough)) some
  | succ steps =>
    obtain ⟨front, b, back, -, -, laid⟩ := layoutTree_split some steps cursor
    rw [laid]
    refine ⟨rfl, _, List.mem_append_left _ (List.mem_append_right _ (List.mem_singleton_self _)), rfl⟩

/-- The offsets in words have 16 bits. -/
theorem root_lt (steps : ℕ) (bytes : List ℕ) (cursor : ℕ) : (layoutTree steps bytes cursor).root < 2 ^ 16 := by
  cases bytes with
  | nil =>
    rw [layoutTree_nil]
    exact Nat.two_pow_pos 16
  | cons first rest =>
    cases steps with
    | zero => exact Nat.two_pow_pos 16
    | succ steps => exact Nat.mod_lt _ (Nat.two_pow_pos 16)

theorem slots_lt {slot : Slot} (member : slot ∈ (layoutTree steps bytes cursor).slots) :
    slot.left < 2 ^ 16 ∧ slot.right < 2 ^ 16 := by
  induction steps generalizing bytes cursor with
  | zero =>
    cases bytes with
    | nil => nomatch member
    | cons first rest => nomatch member
  | succ steps ih =>
    cases bytes with
    | nil => nomatch member
    | cons first rest =>
      obtain ⟨front, b, back, -, -, laid⟩ := layoutTree_split (List.cons_ne_nil first rest) steps cursor
      rw [laid] at member
      rcases List.mem_append.mp member with early | late
      · rcases List.mem_append.mp early with left | own
        · exact ih left
        · obtain rfl := List.mem_singleton.mp own
          exact ⟨root_lt _ _ _, root_lt _ _ _⟩
      · exact ih late

/-- Without a wrap the entries of a range are those of its middle, of its left half and of its right half. -/
theorem layout_parts (some : bytes ≠ []) (steps : ℕ) (below : cursor + bytes.sum < 2 ^ 32) (enough : bytes.length ≤ steps + 1) :
    ∃ front b back, bytes = front ++ b :: back ∧ front.length = (bytes.length - 1) / 2 ∧
      (layoutTree (steps + 1) bytes cursor).slots = (layoutTree steps front (cursor + b)).slots ++
        ⟨cursor, (layoutTree steps front (cursor + b)).root, (layoutTree steps back (cursor + b + front.sum)).root⟩ ::
          (layoutTree steps back (cursor + b + front.sum)).slots := by
  obtain ⟨front, b, back, split, middle, laid⟩ := layoutTree_split some steps cursor
  refine ⟨front, b, back, split, middle, ?_⟩
  rw [laid]
  rw [split] at below enough
  rw [List.sum_append, List.sum_cons] at below
  rw [List.length_append, List.length_cons] at enough
  have start : (cursor + b) % 2 ^ 32 = cursor + b := Nat.mod_eq_of_lt (by omega)
  have half : (layoutTree steps front (cursor + b)).cursor = cursor + b + front.sum := by
    rw [layout_cursor (by omega) (by omega)]
    exact Nat.mod_eq_of_lt (by omega)
  dsimp only
  rw [start, half, List.append_assoc, List.singleton_append]

/-- The places that entries take. -/
def slotExtents (slots : List Slot) (bytes : List ℕ) : List Extent :=
  (slots.zip bytes).map fun place => ⟨place.1.entOff, place.2⟩

/-- The entries share no place. -/
theorem layout_scattered (below : cursor + bytes.sum < 2 ^ 32) (enough : bytes.length ≤ steps) :
    Scattered cursor (cursor + bytes.sum) (slotExtents (layoutTree steps bytes cursor).slots bytes) := by
  induction steps generalizing bytes cursor with
  | zero =>
    obtain rfl := List.length_eq_zero_iff.mp (Nat.le_zero.mp enough)
    exact .nil
  | succ steps ih =>
    cases bytes with
    | nil => exact .nil
    | cons first rest =>
      obtain ⟨front, b, back, split, -, slots⟩ := layout_parts (List.cons_ne_nil first rest) steps below enough
      rw [slots]
      rw [split] at below enough ⊢
      rw [List.sum_append, List.sum_cons] at below ⊢
      rw [List.length_append, List.length_cons] at enough
      have left := ih (by omega : cursor + b + front.sum < 2 ^ 32) (by omega)
      have right := ih (by omega : cursor + b + front.sum + back.sum < 2 ^ 32) (by omega)
      have middle : Fills cursor (cursor + b) [⟨cursor, b⟩] := .single le_rfl le_rfl
      have all := middle.scattered.append (left.append right (by omega) (by omega)) (by omega) (by omega)
      have high : cursor + (front.sum + (b + back.sum)) = cursor + b + front.sum + back.sum := by omega
      rw [slotExtents, List.zip_append (length_slots (by omega)), List.zip_cons_cons, List.map_append, List.map_cons, high]
      rw [List.singleton_append] at all
      exact all.perm List.perm_middle.symm

theorem le_of_mem_slots (below : cursor + bytes.sum < 2 ^ 32) (enough : bytes.length ≤ steps) {slot : Slot}
    (member : slot ∈ (layoutTree steps bytes cursor).slots) : cursor ≤ slot.entOff ∧ slot.entOff ≤ cursor + bytes.sum := by
  have scattered := layout_scattered below enough
  obtain ⟨i, inside, rfl⟩ := List.getElem_of_mem member
  rw [length_slots enough] at inside
  have place : (⟨(layoutTree steps bytes cursor).slots[i].entOff, bytes[i]⟩ : Extent) ∈
      slotExtents (layoutTree steps bytes cursor).slots bytes := by
    refine List.mem_map.mpr ⟨((layoutTree steps bytes cursor).slots[i], bytes[i]), ?_, rfl⟩
    rw [← List.getElem_zip (h := by rw [List.length_zip, length_slots enough, Nat.min_self]; exact inside)]
    exact List.getElem_mem _
  exact ⟨scattered.above _ place, (start_le_stop _).trans (scattered.below _ place)⟩

/-- The last entry stands behind all others. -/
theorem layout_last {init : List ℕ} {last : ℕ} (below : cursor + (init ++ [last]).sum < 2 ^ 32)
    (enough : (init ++ [last]).length ≤ steps) : ∃ slots slot, (layoutTree steps (init ++ [last]) cursor).slots = slots ++ [slot] ∧
      slot.entOff = cursor + init.sum ∧ ∀ other ∈ slots, other.entOff ≤ cursor + init.sum := by
  induction steps generalizing init cursor with
  | zero => exact absurd (List.length_eq_zero_iff.mp (Nat.le_zero.mp enough)) (List.append_ne_nil_of_right_ne_nil _ nofun)
  | succ steps ih =>
    obtain ⟨front, b, back, split, middle, slots⟩ :=
      layout_parts (List.append_ne_nil_of_right_ne_nil init (List.cons_ne_nil last [])) steps below enough
    rw [slots]
    rcases List.eq_nil_or_concat back with rfl | ⟨back, final, rfl⟩
    · rw [split, List.length_append, List.length_singleton] at middle
      obtain rfl := List.length_eq_zero_iff.mp (by omega : front.length = 0)
      obtain ⟨rfl, -⟩ := List.append_inj' split rfl
      rw [layoutTree_nil, layoutTree_nil]
      exact ⟨[], _, rfl, rfl, nofun⟩
    · rw [split] at below enough
      rw [List.concat_eq_append] at split below enough ⊢
      rw [← List.cons_append, ← List.append_assoc] at split
      obtain ⟨rfl, same⟩ := List.append_inj' split rfl
      obtain rfl := List.singleton_inj.mp same
      have sum : (front ++ b :: back).sum = front.sum + (b + back.sum) := by rw [List.sum_append, List.sum_cons]
      rw [List.sum_append, List.sum_cons] at below
      rw [List.length_append, List.length_cons] at enough
      obtain ⟨others, slot, behind, off, before⟩ := ih (by omega : cursor + b + front.sum + (back ++ [last]).sum < 2 ^ 32)
        (by omega : (back ++ [last]).length ≤ steps)
      rw [behind, ← List.cons_append, ← List.append_assoc]
      refine ⟨_, slot, rfl, by omega, fun other member => ?_⟩
      rcases List.mem_append.mp member with early | late
      · have bounds := le_of_mem_slots (by omega : cursor + b + front.sum < 2 ^ 32) (by omega : front.length ≤ steps) early
        omega
      · rcases List.mem_cons.mp late with rfl | late
        · dsimp only
          omega
        · have bound := before other late
          omega

theorem layout_aligned (below : cursor + bytes.sum < 2 ^ 32) (enough : bytes.length ≤ steps) (start : 4 ∣ cursor)
    (words : ∀ b ∈ bytes, 4 ∣ b) {slot : Slot} (member : slot ∈ (layoutTree steps bytes cursor).slots) : 4 ∣ slot.entOff := by
  induction steps generalizing bytes cursor with
  | zero =>
    obtain rfl := List.length_eq_zero_iff.mp (Nat.le_zero.mp enough)
    nomatch member
  | succ steps ih =>
    cases bytes with
    | nil => nomatch member
    | cons first rest =>
      obtain ⟨front, b, back, split, -, slots⟩ := layout_parts (List.cons_ne_nil first rest) steps below enough
      rw [slots] at member
      rw [split] at below enough words
      rw [List.sum_append, List.sum_cons] at below
      rw [List.length_append, List.length_cons] at enough
      have early : 4 ∣ front.sum := List.dvd_sum fun b inside => words b (List.mem_append_left _ inside)
      have middle : 4 ∣ b := words b (List.mem_append_right _ List.mem_cons_self)
      rcases List.mem_append.mp member with left | member
      · exact ih (by omega) (by omega) (Nat.dvd_add start middle) (fun b inside => words b (List.mem_append_left _ inside)) left
      · rcases List.mem_cons.mp member with rfl | right
        · exact start
        · exact ih (by omega) (by omega) (Nat.dvd_add (Nat.dvd_add start middle) early)
            (fun b inside => words b (List.mem_append_right _ (List.mem_cons_of_mem _ inside))) right

end Layout

section Search

/-- An entry that is read from a table. -/
structure Entry where
  left : ℕ
  right : ℕ
  start : ℕ
  size : ℕ
  attr : Byte
  name : List Byte
deriving DecidableEq

/-- The entry at a place. -/
def entryAt (img : Buffer) (place : ℕ) : Entry where
  left := (img place).toNat + 256 * (img (place + 1)).toNat
  right := (img (place + 2)).toNat + 256 * (img (place + 3)).toNat
  start := (rd32 img (place + 4)).toNat
  size := (rd32 img (place + 8)).toNat
  attr := img (place + 12)
  name := slice img (place + 14) (img (place + 13)).toNat

/-- A search for a name in a table comes from one offset to another, where it finds the name. -/
inductive Finds (img : Buffer) (table : ℕ) (name : List Byte) : ℕ → ℕ → Prop
  | here {off : ℕ} (same : xdvdfsCmp name (entryAt img (table + off)).name = 0) : Finds img table name off off
  | left {off found : ℕ} (less : xdvdfsCmp name (entryAt img (table + off)).name < 0)
    (child : (entryAt img (table + off)).left ≠ 0)
    (rest : Finds img table name (4 * (entryAt img (table + off)).left) found) : Finds img table name off found
  | right {off found : ℕ} (more : 0 < xdvdfsCmp name (entryAt img (table + off)).name)
    (child : (entryAt img (table + off)).right ≠ 0)
    (rest : Finds img table name (4 * (entryAt img (table + off)).right) found) : Finds img table name off found

variable {img : Buffer} {table : ℕ}

/-- A table has an entry for a node where it was laid out. -/
structure Shown (img : Buffer) (table : ℕ) (node : Node) (slot : Slot) : Prop where
  left : (entryAt img (table + slot.entOff)).left = slot.left
  right : (entryAt img (table + slot.entOff)).right = slot.right
  name : (entryAt img (table + slot.entOff)).name = node.name

theorem entryBytes_bounds (node : Node) : 14 + node.name.length ≤ entryBytes node ∧ 4 ∣ entryBytes node := by
  rw [entryBytes]
  exact ⟨by omega, Nat.dvd_mul_left _ _⟩

theorem words_of_entries {nodes : List Node} : ∀ b ∈ nodes.map entryBytes, 4 ∣ b := by
  intro b member
  obtain ⟨node, -, rfl⟩ := List.mem_map.mp member
  exact (entryBytes_bounds node).2

/-- The root of a range is where its offset in words points. -/
theorem root_offset {steps cursor : ℕ} {bytes : List ℕ} (some : bytes ≠ []) (enough : bytes.length ≤ steps)
    (aligned : 4 ∣ cursor) (near : ∀ slot ∈ (layoutTree steps bytes cursor).slots, slot.entOff < 2 ^ 18) :
    4 * (layoutTree steps bytes cursor).root = cursor := by
  obtain ⟨root, slot, member, off⟩ := layout_root cursor some enough
  have bound := near slot member
  rw [root]
  omega

/-- A search finds every entry of a range from its root. -/
theorem finds_layout {steps cursor : ℕ} {nodes : List Node} (rightful : ∀ node ∈ nodes, ∀ c ∈ node.name, c ≠ 0)
    (strict : (nodes.map fun node => key node.name).Pairwise (· < ·))
    (below : cursor + (nodes.map entryBytes).sum < 2 ^ 32) (enough : nodes.length ≤ steps) (aligned : 4 ∣ cursor)
    (near : ∀ slot ∈ (layoutTree steps (nodes.map entryBytes) cursor).slots, slot.entOff < 2 ^ 18)
    (shown : ∀ place ∈ nodes.zip (layoutTree steps (nodes.map entryBytes) cursor).slots, Shown img table place.1 place.2) :
    ∀ place ∈ nodes.zip (layoutTree steps (nodes.map entryBytes) cursor).slots,
      Finds img table place.1.name cursor place.2.entOff := by
  induction steps generalizing nodes cursor with
  | zero =>
    obtain rfl := List.length_eq_zero_iff.mp (Nat.le_zero.mp enough)
    exact nofun
  | succ steps ih =>
    cases nodes with
    | nil => exact nofun
    | cons first rest =>
      have some : (first :: rest).map entryBytes ≠ [] := nofun
      obtain ⟨front, b, back, split, -, slots⟩ := layout_parts some steps below (by rwa [List.length_map])
      obtain ⟨early, others, split', rfl, behind⟩ := List.map_eq_append_iff.mp split
      obtain ⟨node, late, rfl, rfl, rfl⟩ := List.map_eq_cons_iff.mp behind
      rw [slots] at near shown ⊢
      rw [split'] at rightful strict below enough shown ⊢
      rw [List.map_append, List.map_cons, List.sum_append, List.sum_cons] at below
      rw [List.length_append, List.length_cons] at enough
      have bounds := entryBytes_bounds node
      have sum : 4 ∣ (early.map entryBytes).sum := List.dvd_sum words_of_entries
      have few : early.length = (layoutTree steps (early.map entryBytes) (cursor + entryBytes node)).slots.length := by
        rw [length_slots (by rw [List.length_map]; omega), List.length_map]
      rw [List.zip_append few, List.zip_cons_cons] at shown ⊢
      rw [List.map_append, List.map_cons] at strict
      obtain ⟨strictEarly, strictLate, apart⟩ := List.pairwise_append.mp strict
      obtain ⟨above, strictLate⟩ := List.pairwise_cons.mp strictLate
      have own := shown _ (List.mem_append_right _ List.mem_cons_self)
      intro place member
      rcases List.mem_append.mp member with left | member
      · have inside := (List.of_mem_zip left).1
        have some := List.ne_nil_of_mem (List.mem_map_of_mem (f := entryBytes) inside)
        have nearLeft slot inside := near slot (List.mem_append_left _ inside)
        have root := root_offset some (by rw [List.length_map]; omega) (Nat.dvd_add aligned bounds.2) nearLeft
        have found := ih (fun node inside => rightful node (List.mem_append_left _ inside)) strictEarly (by omega) (by omega)
          (Nat.dvd_add aligned bounds.2) nearLeft (fun place inside => shown place (List.mem_append_left _ inside)) place left
        refine .left ?_ ?_ ?_
        · rw [own.name, xdvdfsCmp_neg (rightful node (List.mem_append_right _ List.mem_cons_self))]
          exact apart _ (List.mem_map_of_mem inside) _ List.mem_cons_self
        · rw [own.left]
          dsimp only
          omega
        · rw [own.left, root]
          exact found
      · rcases List.mem_cons.mp member with rfl | right
        · refine .here ?_
          have right := rightful node (List.mem_append_right _ List.mem_cons_self)
          rw [own.name, xdvdfsCmp_eq_zero right right]
        · have inside := (List.of_mem_zip right).1
          have some := List.ne_nil_of_mem (List.mem_map_of_mem (f := entryBytes) inside)
          have aligned' := Nat.dvd_add (Nat.dvd_add aligned bounds.2) sum
          have nearRight slot inside := near slot (List.mem_append_right _ (List.mem_cons_of_mem _ inside))
          have root := root_offset some (by rw [List.length_map]; omega) aligned' nearRight
          have found := ih (fun node inside => rightful node (List.mem_append_right _ (List.mem_cons_of_mem _ inside)))
            strictLate (by omega) (by omega) aligned' nearRight
            (fun place inside => shown place (List.mem_append_right _ (List.mem_cons_of_mem _ inside))) place right
          refine .right ?_ ?_ ?_
          · have order := above _ (List.mem_map_of_mem inside)
            have other := rightful place.1 (List.mem_append_right _ (List.mem_cons_of_mem _ inside))
            have own' := rightful node (List.mem_append_right _ List.mem_cons_self)
            rw [own.name]
            refine Int.lt_of_not_ge fun le => ?_
            rcases Int.le_iff_lt_or_eq.mp le with less | same
            · exact lt_asymm order ((xdvdfsCmp_neg own').mp less)
            · exact order.ne' ((xdvdfsCmp_eq_zero other own').mp same)
          · rw [own.right]
            dsimp only
            omega
          · rw [own.right, root]
            exact found

/-- The offsets of the format reach 2 ^ 18 bytes. -/
theorem Finds.reach {name : List Byte} {off found : ℕ} (finds : Finds img table name off found) :
    found = off ∨ found < 2 ^ 18 ∧ 4 ∣ found := by
  have word (place : ℕ) : (img place).toNat + 256 * (img (place + 1)).toNat < 2 ^ 16 := by
    have low := (img place).isLt
    have high := (img (place + 1)).isLt
    omega
  induction finds with
  | here => exact .inl rfl
  | @left off found _ _ _ ih =>
    have bound := word (table + off)
    rcases ih with rfl | inside
    · refine .inr ⟨?_, Nat.dvd_mul_right _ _⟩
      rw [entryAt]
      dsimp only
      omega
    · exact .inr inside
  | @right off found _ _ _ ih =>
    have bound := word (table + off + 2)
    rcases ih with rfl | inside
    · refine .inr ⟨?_, Nat.dvd_mul_right _ _⟩
      rw [entryAt]
      dsimp only
      omega
    · exact .inr inside

end Search

end KosTool.Xiso
