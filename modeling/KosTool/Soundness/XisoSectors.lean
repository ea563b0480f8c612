import KosTool.Soundness.IsoImages
import KosTool.Soundness.XisoTables

/-! # The sectors of an XISO image

The directories are taken out of a queue, and each turn gives sectors to the children of one of them. As long as no count
wraps, what is given out shares no sector, and every directory of the tree is taken out once.
-/

namespace KosTool.Xiso

open Extent
open IsoLite (sectorCount sectorsFor_eq)

section Nodes

/-- What is below a node. -/
def deeper : Node → List Node
  | .file _ _ => []
  | .dir _ kids => below kids

/-- The bytes of a node, without a limit. -/
def Node.bytes : Node → ℕ
  | .file _ data => data.length
  | .dir _ kids => (kids.map entryBytes).sum

theorem below_perm (nodes : List Node) : (below nodes).Perm (nodes ++ nodes.flatMap deeper) := by
  have own : nodes = nodes.flatMap fun node => [node] := by rw [List.flatMap_singleton']
  have split : below nodes = nodes.flatMap fun node => [node] ++ deeper node := by
    rw [below_eq_flatMap]
    congr 1
    funext node
    cases node with
    | file name data => rfl
    | dir name kids => rfl
  rw [split]
  conv_rhs => rw [own]
  rw [List.flatMap_assoc]
  exact (List.flatMap_append_perm nodes _ _).symm.trans (by simp)

theorem forestSum_eq (f : Node → ℕ) (nodes : List Node) : forestSum f nodes = (nodes.map (treeSum f)).sum := by
  induction nodes with
  | nil => rfl
  | cons node rest ih => rw [forestSum, ih, List.map_cons, List.sum_cons]

theorem dirCount_perm {nodes nodes' : List Node} (perm : nodes.Perm nodes') : dirCount nodes = dirCount nodes' := by
  rw [dirCount, dirCount, forestSum_eq, forestSum_eq]
  exact (perm.map _).sum_eq

/-- The table of a directory, in 32 bits. -/
theorem tableOf_cursor (nodes : List Node) : (tableOf nodes).cursor = (nodes.map entryBytes).sum % 2 ^ 32 := by
  rw [tableOf, layout_cursor (by decide) (by rw [List.length_map]), Nat.zero_add]

theorem length_tableOf (nodes : List Node) : (tableOf nodes).slots.length = nodes.length := by
  rw [tableOf, length_slots (by rw [List.length_map]), List.length_map]

/-- The children in the order of their entries are the children with their entries. -/
theorem preorder_perm (nodes : List Node) :
    ((preorder nodes).map fun c => (c.node, c.slot)).Perm (nodes.zip (tableOf nodes).slots) := by
  have sorted := (List.perm_insertionSort (fun a b : Listed => a.slot.entOff ≤ b.slot.entOff)
    ((nodes.zip (tableOf nodes).slots).zipIdx.map fun place => ⟨place.1.1, place.2, place.1.2⟩)).map
      fun c => (c.node, c.slot)
  rw [List.map_map] at sorted
  refine sorted.trans (.of_eq ?_)
  exact List.zipIdx_map_fst 0 _

end Nodes

section Turn

variable {listed : List Listed} {cursor : ℕ}

theorem placeKids_listed (listed : List Listed) (cursor tail : ℕ) :
    ((placeKids listed cursor tail).1.map fun kid => (⟨kid.node, kid.index, kid.slot⟩ : Listed)) = listed := by
  induction listed generalizing cursor tail with
  | nil => rfl
  | cons c rest ih => exact congrArg _ (ih _ _)

/-- The sector and the bytes of a child. -/
def PlacedKid.item (kid : PlacedKid) : ℕ × ℕ := (kid.start, kid.node.size)

/-- The sectors of something at a sector with some bytes. -/
def sectorExtent (item : ℕ × ℕ) : Extent := ⟨item.1, sectorCount item.2⟩

/-- What takes sectors at all. -/
def taken (items : List (ℕ × ℕ)) : List (ℕ × ℕ) := items.filter fun item => item.2 ≠ 0

/-- The count of sectors does not wrap. -/
def Countable (size : ℕ) : Prop := size + 2047 < 2 ^ 32

theorem secCount_eq {size : ℕ} (countable : Countable size) : secCount size = sectorCount size := by
  have added : size + sectorSize - 1 = size + 2047 := rfl
  rw [secCount, added, Nat.mod_eq_of_lt countable]
  rfl

theorem taken_append (items others : List (ℕ × ℕ)) : taken (items ++ others) = taken items ++ taken others :=
  List.filter_append _ _

theorem taken_cons (item : ℕ × ℕ) (items : List (ℕ × ℕ)) : taken (item :: items) = taken [item] ++ taken items :=
  taken_append [item] items

/-- The first free sector behind children, in 32 bits. -/
theorem placeKids_cursor (listed : List Listed) (below : cursor < 2 ^ 32) (tail : ℕ) : (placeKids listed cursor tail).2.1 =
    (cursor + (listed.map fun c => secCount c.node.size).sum) % 2 ^ 32 := by
  induction listed generalizing cursor tail with
  | nil => exact (Nat.mod_eq_of_lt below).symm
  | cons c rest ih =>
    have next := ih (Nat.mod_lt (cursor + secCount c.node.size) (by decide)) (if c.node.isDir then tail + 1 else tail)
    rw [List.map_cons, List.sum_cons, ← Nat.add_assoc]
    refine Eq.trans next ?_
    rw [Nat.mod_add_mod]

theorem placeKids_start (below : cursor < 2 ^ 32) (tail : ℕ) : ∀ kid ∈ (placeKids listed cursor tail).1, kid.start < 2 ^ 32 := by
  induction listed generalizing cursor tail with
  | nil => exact nofun
  | cons c rest ih =>
    intro kid member
    rcases List.mem_cons.mp member with rfl | later
    · change (if c.node.size = 0 then 0 else cursor) < 2 ^ 32
      split_ifs
      · decide
      · exact below
    · exact ih (Nat.mod_lt _ (by decide)) _ kid later

/-- Without a wrap, the children stand behind one another. -/
theorem placeKids_fills (countable : ∀ c ∈ listed, Countable c.node.size)
    (below : cursor + (listed.map fun c => sectorCount c.node.size).sum < 2 ^ 32) (tail : ℕ) :
    Fills cursor (cursor + (listed.map fun c => sectorCount c.node.size).sum)
      ((taken ((placeKids listed cursor tail).1.map PlacedKid.item)).map sectorExtent) := by
  induction listed generalizing cursor tail with
  | nil => exact .nil le_rfl
  | cons c rest ih =>
    have own := secCount_eq (countable c List.mem_cons_self)
    rw [List.map_cons, List.sum_cons, ← Nat.add_assoc] at below ⊢
    have next : (cursor + secCount c.node.size) % 2 ^ 32 = cursor + sectorCount c.node.size := by
      rw [own]
      exact Nat.mod_eq_of_lt (by omega)
    have others := ih (fun other member => countable other (List.mem_cons_of_mem _ member)) below
      (if c.node.isDir then tail + 1 else tail)
    have first : (placeKids (c :: rest) cursor tail).1.map PlacedKid.item =
        (if c.node.size = 0 then 0 else cursor, c.node.size) ::
          (placeKids rest (cursor + sectorCount c.node.size) (if c.node.isDir then tail + 1 else tail)).1.map PlacedKid.item := by
      rw [placeKids, next]
      rfl
    rw [first, taken_cons, List.map_append]
    refine Fills.append ?_ (le_refl (cursor + sectorCount c.node.size)) others
    rcases Nat.eq_zero_or_pos c.node.size with zero | positive
    · have none : taken [(if c.node.size = 0 then 0 else cursor, c.node.size)] = [] :=
        List.filter_cons_of_neg (by simp [zero])
      rw [none]
      exact .nil (Nat.le_add_right _ _)
    · have one : taken [(if c.node.size = 0 then 0 else cursor, c.node.size)] = [(cursor, c.node.size)] := by
        rw [if_neg positive.ne']
        exact List.filter_cons_of_pos (by simp [positive.ne'])
      rw [one]
      exact .single le_rfl le_rfl

/-- The directories of children go to the end of the queue, in their order. -/
theorem placeKids_pushed (listed : List Listed) (cursor tail : ℕ) :
    (placeKids listed cursor tail).2.2 = tail + (pushed (placeKids listed cursor tail).1).length ∧
      (∀ kid ∈ (placeKids listed cursor tail).1, ∀ name kids, kid.node = .dir name kids →
        ∃ j, kid.child = tail + j ∧ (pushed (placeKids listed cursor tail).1)[j]? = some (kid.start, kids)) ∧
      ∀ j start kids, (pushed (placeKids listed cursor tail).1)[j]? = some (start, kids) →
        ∃ kid ∈ (placeKids listed cursor tail).1, ∃ name, kid.node = .dir name kids ∧ kid.start = start ∧ kid.child = tail + j := by
  induction listed generalizing cursor tail with
  | nil => exact ⟨rfl, nofun, nofun⟩
  | cons c rest ih =>
    obtain ⟨node, index, slot⟩ := c
    cases node with
    | file name data =>
      obtain ⟨count, forth, back⟩ := ih ((cursor + secCount (Node.file name data).size) % 2 ^ 32) tail
      refine ⟨count, fun kid member => ?_, fun j start kids there => ?_⟩
      · rcases List.mem_cons.mp member with rfl | later
        · exact nofun
        · exact forth kid later
      · obtain ⟨kid, member, found⟩ := back j start kids there
        exact ⟨kid, List.mem_cons_of_mem _ member, found⟩
    | dir name kids =>
      obtain ⟨count, forth, back⟩ := ih ((cursor + secCount (Node.dir name kids).size) % 2 ^ 32) (tail + 1)
      refine ⟨count.trans (by rw [Nat.add_right_comm]; rfl), fun kid member name' kids' same => ?_, fun j start kids there => ?_⟩
      · rcases List.mem_cons.mp member with rfl | later
        · cases same
          exact ⟨0, rfl, rfl⟩
        · obtain ⟨j, child, there⟩ := forth kid later name' kids' same
          exact ⟨j + 1, by rw [child, Nat.add_right_comm, Nat.add_assoc], there⟩
      · cases j with
        | zero =>
          cases Option.some.inj there
          exact ⟨_, List.mem_cons_self, name, rfl, rfl, rfl⟩
        | succ j =>
          obtain ⟨kid, member, name', same, own, child⟩ := back j start kids there
          exact ⟨kid, List.mem_cons_of_mem _ member, name', same, own, by rw [child, Nat.add_right_comm, Nat.add_assoc]⟩

theorem pushed_deeper (kids : List PlacedKid) :
    ((pushed kids).flatMap fun entry => below entry.2) = (kids.map PlacedKid.node).flatMap deeper := by
  induction kids with
  | nil => rfl
  | cons kid rest ih =>
    obtain ⟨node, index, slot, start, child⟩ := kid
    cases node with
    | file name data => exact ih
    | dir name nodes => exact congrArg (below nodes ++ ·) ih

/-- The turns that a queue takes. -/
def weight (queue : List (ℕ × List Node)) : ℕ := (queue.map fun entry => dirCount entry.2 + 1).sum

theorem weight_pushed (kids : List PlacedKid) : weight (pushed kids) = dirCount (kids.map PlacedKid.node) := by
  induction kids with
  | nil => rfl
  | cons kid rest ih =>
    obtain ⟨node, index, slot, start, child⟩ := kid
    cases node with
    | file name data =>
      have none : dirCount (.file name data :: rest.map PlacedKid.node) = 0 + dirCount (rest.map PlacedKid.node) := rfl
      rw [List.map_cons, none, Nat.zero_add]
      exact ih
    | dir name nodes =>
      have one : dirCount (.dir name nodes :: rest.map PlacedKid.node) =
          1 + dirCount nodes + dirCount (rest.map PlacedKid.node) := rfl
      have total : weight ((start, nodes) :: pushed rest) = dirCount nodes + 1 + weight (pushed rest) := List.sum_cons
      rw [List.map_cons, one, ← ih, Nat.add_comm 1]
      exact total

end Turn

section Runs

/-- The turns on a queue take out directories and end with a first free sector. -/
inductive Assigns : List (ℕ × List Node) → ℕ → ℕ → List PlacedDir → ℕ → Prop
  | done {cursor tail : ℕ} : Assigns [] cursor tail [] cursor
  | turn {start : ℕ} {nodes : List Node} {queue : List (ℕ × List Node)} {cursor tail : ℕ} {others : List PlacedDir} {last : ℕ}
    (rest : Assigns (queue ++ pushed (placeKids (preorder nodes) cursor tail).1) (placeKids (preorder nodes) cursor tail).2.1
      (placeKids (preorder nodes) cursor tail).2.2 others last) :
    Assigns ((start, nodes) :: queue) cursor tail (⟨start, nodes, (placeKids (preorder nodes) cursor tail).1⟩ :: others) last

theorem preorder_nodes (nodes : List Node) : ((preorder nodes).map Listed.node).Perm nodes := by
  have places := (preorder_perm nodes).map Prod.fst
  rw [List.map_map, List.map_fst_zip (length_tableOf nodes).ge] at places
  exact places

/-- The children that are given sectors are those of the directory. -/
theorem placeKids_nodes (nodes : List Node) (cursor tail : ℕ) :
    ((placeKids (preorder nodes) cursor tail).1.map PlacedKid.node).Perm nodes := by
  have same := congrArg (List.map Listed.node) (placeKids_listed (preorder nodes) cursor tail)
  rw [List.map_map] at same
  exact (List.Perm.of_eq same).trans (preorder_nodes nodes)

theorem placeKids_places (nodes : List Node) (cursor tail : ℕ) :
    ((placeKids (preorder nodes) cursor tail).1.map fun kid => (kid.node, kid.slot)).Perm
      (nodes.zip (tableOf nodes).slots) := by
  have same := congrArg (List.map fun c => (c.node, c.slot)) (placeKids_listed (preorder nodes) cursor tail)
  rw [List.map_map] at same
  exact (List.Perm.of_eq same).trans (preorder_perm nodes)

/-- The turns of the tool are enough. -/
theorem assign_assigns {steps : ℕ} {queue : List (ℕ × List Node)} {cursor tail : ℕ} (enough : weight queue ≤ steps) :
    Assigns queue cursor tail (assign steps queue cursor tail).1 (assign steps queue cursor tail).2 := by
  induction steps generalizing queue cursor tail with
  | zero =>
    cases queue with
    | nil => exact .done
    | cons entry rest =>
      rw [weight, List.map_cons, List.sum_cons] at enough
      omega
  | succ steps ih =>
    cases queue with
    | nil => exact .done
    | cons entry rest =>
      obtain ⟨start, nodes⟩ := entry
      refine .turn (ih ?_)
      have total : weight ((start, nodes) :: rest) = dirCount nodes + 1 + weight rest := List.sum_cons
      rw [weight, List.map_append, List.sum_append]
      change weight rest + weight (pushed (placeKids (preorder nodes) cursor tail).1) ≤ steps
      rw [weight_pushed, dirCount_perm (placeKids_nodes nodes cursor tail)]
      omega

variable {queue : List (ℕ × List Node)} {cursor tail last : ℕ} {dirs : List PlacedDir}

/-- What is taken out at a place is what is in the queue there. -/
theorem Assigns.queued (assigns : Assigns queue cursor tail dirs last) {i start : ℕ} {nodes : List Node}
    (there : queue[i]? = some (start, nodes)) : ∃ dir, dirs[i]? = some dir ∧ dir.start = start ∧ dir.nodes = nodes := by
  induction assigns generalizing i with
  | done => nomatch there
  | turn rest ih =>
    cases i with
    | zero =>
      cases Option.some.inj there
      exact ⟨_, rfl, rfl, rfl⟩
    | succ i =>
      rw [List.getElem?_cons_succ] at there
      refine ih ?_
      rw [List.getElem?_append_left (List.getElem?_eq_some_iff.mp there).1]
      exact there

/-- Each directory has its children with sectors. -/
theorem Assigns.placed (assigns : Assigns queue cursor tail dirs last) (below : cursor < 2 ^ 32) :
    ∀ dir ∈ dirs, ∃ cursor < 2 ^ 32, ∃ tail, dir.kids = (placeKids (preorder dir.nodes) cursor tail).1 := by
  induction assigns with
  | done => exact nofun
  | @turn start nodes queue cursor tail others last rest ih =>
    intro dir member
    rcases List.mem_cons.mp member with rfl | later
    · exact ⟨cursor, below, tail, rfl⟩
    · refine ih ?_ dir later
      rw [placeKids_cursor _ below tail]
      exact Nat.mod_lt _ (by decide)

/-- A directory among the children of one that was taken out is taken out at its place in the queue. -/
theorem Assigns.child (assigns : Assigns queue cursor tail dirs last) (base : ℕ) (behind : tail = base + queue.length)
    {k : ℕ} {dir : PlacedDir} (there : dirs[k]? = some dir) {kid : PlacedKid} (member : kid ∈ dir.kids)
    {name : List Byte} {kids : List Node} (same : kid.node = .dir name kids) :
    ∃ m, kid.child = base + m ∧ ∃ sub, dirs[m]? = some sub ∧ sub.start = kid.start ∧ sub.nodes = kids := by
  induction assigns generalizing base k with
  | done => nomatch there
  | @turn start nodes queue cursor tail others last rest ih =>
    obtain ⟨count, forth, -⟩ := placeKids_pushed (preorder nodes) cursor tail
    rw [List.length_cons] at behind
    cases k with
    | zero =>
      cases Option.some.inj there
      obtain ⟨j, child, place⟩ := forth kid member name kids same
      refine ⟨queue.length + j + 1, by omega, rest.queued ?_⟩
      rw [List.getElem?_append_right (Nat.le_add_right _ _), Nat.add_sub_cancel_left]
      exact place
    | succ k =>
      obtain ⟨m, child, found⟩ := ih (base + 1) (by rw [count, List.length_append]; omega) there
      exact ⟨m + 1, by omega, found⟩

/-- What was not in the queue from the start is a child of a directory that was taken out before it. -/
theorem Assigns.parent (assigns : Assigns queue cursor tail dirs last) (base : ℕ) (behind : tail = base + queue.length)
    {m : ℕ} {sub : PlacedDir} (there : dirs[m]? = some sub) (later : queue.length ≤ m) :
    ∃ k < m, ∃ dir, dirs[k]? = some dir ∧ ∃ kid ∈ dir.kids, ∃ name, kid.node = .dir name sub.nodes ∧
      kid.start = sub.start ∧ kid.child = base + m := by
  induction assigns generalizing base m with
  | done => nomatch there
  | @turn start nodes queue cursor tail others last rest ih =>
    obtain ⟨count, -, back⟩ := placeKids_pushed (preorder nodes) cursor tail
    rw [List.length_cons] at behind later
    cases m with
    | zero => nomatch later
    | succ m =>
      rw [List.getElem?_cons_succ] at there
      rcases Nat.lt_or_ge m (queue ++ pushed (placeKids (preorder nodes) cursor tail).1).length with inside | beyond
      · have entry := List.getElem?_eq_getElem inside
        obtain ⟨sub', there', own, same⟩ := rest.queued entry
        cases Option.some.inj (there.symm.trans there')
        rw [List.getElem?_append_right (by omega)] at entry
        obtain ⟨kid, member, name, node, at_start, child⟩ := back _ _ _ entry
        refine ⟨0, Nat.succ_pos m, _, rfl, kid, member, name, ?_, at_start.trans own.symm, by omega⟩
        rw [node, same]
      · obtain ⟨k, less, dir, at_k, kid, member, name, node, own, child⟩ :=
          ih (base + 1) (by rw [count, List.length_append]; omega) there beyond
        exact ⟨k + 1, Nat.succ_lt_succ less, dir, at_k, kid, member, name, node, own, by omega⟩

/-- The children of all directories are all that is below. -/
theorem Assigns.nodes (assigns : Assigns queue cursor tail dirs last) :
    (dirs.flatMap fun dir => dir.kids.map PlacedKid.node).Perm (queue.flatMap fun entry => Xiso.below entry.2) := by
  induction assigns with
  | done => exact .refl _
  | @turn start nodes queue cursor tail others last rest ih =>
    have own := placeKids_nodes nodes cursor tail
    rw [List.flatMap_append, pushed_deeper] at ih
    rw [List.flatMap_cons, List.flatMap_cons]
    have split := (below_perm nodes).symm.trans (.refl _)
    have whole := (own.append (own.flatMap_right deeper)).trans split
    refine (ih.append_left _).trans ?_
    refine (List.perm_append_comm_assoc _ _ _).trans ?_
    exact (whole.append_left _).trans List.perm_append_comm

/-- The first free sector is behind all children, in 32 bits. -/
theorem Assigns.cursor_eq (assigns : Assigns queue cursor tail dirs last) (below : cursor < 2 ^ 32) :
    last = (cursor + ((dirs.flatMap fun dir => dir.kids.map PlacedKid.node).map fun node => secCount node.size).sum) % 2 ^ 32 := by
  induction assigns with
  | done => exact (Nat.mod_eq_of_lt below).symm
  | @turn start nodes queue cursor tail others last rest ih =>
    have next := placeKids_cursor (preorder nodes) below tail
    have under : (placeKids (preorder nodes) cursor tail).2.1 < 2 ^ 32 := by
      rw [next]
      exact Nat.mod_lt _ (by decide)
    have same := congrArg (List.map fun c => secCount c.node.size) (placeKids_listed (preorder nodes) cursor tail)
    rw [List.map_map] at same
    rw [ih under, next, List.flatMap_cons, List.map_append, List.sum_append, List.map_map, ← same, Nat.mod_add_mod,
      ← Nat.add_assoc]
    rfl

/-- The children of all directories. -/
def allNodes (dirs : List PlacedDir) : List Node := dirs.flatMap fun dir => dir.kids.map PlacedKid.node

/-- The sectors and the bytes of the children of all directories. -/
def kidItems (dirs : List PlacedDir) : List (ℕ × ℕ) := dirs.flatMap fun dir => dir.kids.map PlacedKid.item

/-- Without a wrap, the children of all directories stand behind one another. -/
theorem Assigns.fills (assigns : Assigns queue cursor tail dirs last) (countable : ∀ node ∈ allNodes dirs, Countable node.size)
    (below : cursor + ((allNodes dirs).map fun node => sectorCount node.size).sum < 2 ^ 32) :
    last = cursor + ((allNodes dirs).map fun node => sectorCount node.size).sum ∧
      Fills cursor last ((taken (kidItems dirs)).map sectorExtent) := by
  induction assigns with
  | done => exact ⟨rfl, .nil le_rfl⟩
  | @turn start nodes queue cursor tail others last rest ih =>
    have same := congrArg (List.map fun c => sectorCount c.node.size) (placeKids_listed (preorder nodes) cursor tail)
    rw [List.map_map] at same
    rw [allNodes, List.flatMap_cons] at countable below ⊢
    rw [List.map_append, List.sum_append, List.map_map] at below ⊢
    have sum : ((placeKids (preorder nodes) cursor tail).1.map ((fun node => sectorCount node.size) ∘ PlacedKid.node)).sum =
        ((preorder nodes).map fun c => sectorCount c.node.size).sum := congrArg List.sum same
    rw [sum] at below ⊢
    have small : ∀ c ∈ preorder nodes, Countable c.node.size := by
      intro c member
      rw [← placeKids_listed (preorder nodes) cursor tail] at member
      obtain ⟨kid, inside, rfl⟩ := List.mem_map.mp member
      exact countable kid.node (List.mem_append_left _ (List.mem_map_of_mem inside))
    have first := placeKids_fills small (by omega : cursor + ((preorder nodes).map fun c => sectorCount c.node.size).sum < _) tail
    have next : (placeKids (preorder nodes) cursor tail).2.1 = cursor + ((preorder nodes).map fun c => sectorCount c.node.size).sum := by
      have counts : ((preorder nodes).map fun c => secCount c.node.size) = (preorder nodes).map fun c => sectorCount c.node.size :=
        List.map_congr_left fun c member => secCount_eq (small c member)
      rw [placeKids_cursor _ (by omega) tail, counts]
      exact Nat.mod_eq_of_lt (by omega)
    rw [next] at ih
    obtain ⟨end_eq, others_fill⟩ := ih (fun node member => countable node (List.mem_append_right _ member))
      (by rw [allNodes]; omega)
    rw [allNodes, Nat.add_assoc] at end_eq
    refine ⟨end_eq, ?_⟩
    rw [kidItems, List.flatMap_cons, taken_append, List.map_append]
    exact first.append le_rfl others_fill

/-- The sector and the bytes of the table of a directory. -/
def PlacedDir.item (dir : PlacedDir) : ℕ × ℕ := (dir.start, (tableOf dir.nodes).cursor)

/-- The sectors and the bytes of the files in a directory. -/
def PlacedDir.fileItems (dir : PlacedDir) : List (ℕ × ℕ) := (dir.kids.filter fun kid => !kid.node.isDir).map PlacedKid.item

theorem items_perm (kids : List PlacedKid) : (kids.map PlacedKid.item).Perm
    ((pushed kids).map (fun entry => (entry.1, (tableOf entry.2).cursor)) ++
      (kids.filter fun kid => !kid.node.isDir).map PlacedKid.item) := by
  induction kids with
  | nil => exact .refl _
  | cons kid rest ih =>
    obtain ⟨node, index, slot, start, child⟩ := kid
    cases node with
    | file name data => exact (ih.cons _).trans List.perm_middle.symm
    | dir name nodes => exact ih.cons _

/-- What is given out is the tables of the directories and the files in them. -/
theorem Assigns.items (assigns : Assigns queue cursor tail dirs last) :
    (queue.map (fun entry => (entry.1, (tableOf entry.2).cursor)) ++ kidItems dirs).Perm
      (dirs.map PlacedDir.item ++ dirs.flatMap PlacedDir.fileItems) := by
  induction assigns with
  | done => exact .refl _
  | @turn start nodes queue cursor tail others last rest ih =>
    have own := items_perm (placeKids (preorder nodes) cursor tail).1
    rw [List.perm_iff_count] at ih own ⊢
    intro item
    have counts := ih item
    have counts' := own item
    simp only [List.map_append, kidItems, List.map_cons, List.flatMap_cons, List.cons_append, List.count_append,
      List.count_cons, PlacedDir.fileItems, PlacedDir.item] at counts counts' ⊢
    omega

end Runs

section Image

variable {nodes : List Node}

theorem assignSectors_assigns (nodes : List Node) : Assigns [(reservedSec + 1, nodes)]
    ((reservedSec + 1 + secCount (tableOf nodes).cursor) % 2 ^ 32) 1 (imageOf nodes).dirs (assignSectors nodes).2 := by
  have enough : weight [(reservedSec + 1, nodes)] ≤ dirCount nodes + 1 := by
    rw [weight, List.map_singleton, List.sum_singleton]
  exact assign_assigns enough

theorem image_sectors (nodes : List Node) : (imageOf nodes).sectors = alignUp (assignSectors nodes).2 alignSectors := rfl

/-- The first directory is the root. -/
theorem image_root (nodes : List Node) : ∃ dir, (imageOf nodes).dirs[0]? = some dir ∧ dir.start = 33 ∧ dir.nodes = nodes :=
  (assignSectors_assigns nodes).queued rfl

theorem image_nodes (nodes : List Node) : (allNodes (imageOf nodes).dirs).Perm (below nodes) := by
  have perm := (assignSectors_assigns nodes).nodes
  rwa [List.flatMap_singleton] at perm

theorem image_placed : ∀ dir ∈ (imageOf nodes).dirs,
    ∃ cursor < 2 ^ 32, ∃ tail, dir.kids = (placeKids (preorder dir.nodes) cursor tail).1 :=
  (assignSectors_assigns nodes).placed (Nat.mod_lt _ (by decide))

/-- The children of a directory have the entries that were laid out for them. -/
theorem image_places {dir : PlacedDir} (member : dir ∈ (imageOf nodes).dirs) :
    (dir.kids.map fun kid => (kid.node, kid.slot)).Perm (dir.nodes.zip (tableOf dir.nodes).slots) := by
  obtain ⟨cursor, -, tail, kids⟩ := image_placed dir member
  rw [kids]
  exact placeKids_places dir.nodes cursor tail

theorem image_start {dir : PlacedDir} (member : dir ∈ (imageOf nodes).dirs) : ∀ kid ∈ dir.kids, kid.start < 2 ^ 32 := by
  obtain ⟨cursor, below, tail, kids⟩ := image_placed dir member
  rw [kids]
  exact placeKids_start below tail

/-- Each directory has a place of its own. -/
theorem image_child {k : ℕ} {dir : PlacedDir} (there : (imageOf nodes).dirs[k]? = some dir) {kid : PlacedKid}
    (member : kid ∈ dir.kids) {name : List Byte} {kids : List Node} (same : kid.node = .dir name kids) :
    ∃ sub, (imageOf nodes).dirs[kid.child]? = some sub ∧ sub.start = kid.start ∧ sub.nodes = kids := by
  obtain ⟨m, child, found⟩ := (assignSectors_assigns nodes).child 0 rfl there member same
  rwa [child, Nat.zero_add]

/-- Each directory but the root is a child of one before it. -/
theorem image_parent {m : ℕ} {sub : PlacedDir} (there : (imageOf nodes).dirs[m]? = some sub) (later : 0 < m) :
    ∃ k < m, ∃ dir, (imageOf nodes).dirs[k]? = some dir ∧ ∃ kid ∈ dir.kids, ∃ name, kid.node = .dir name sub.nodes ∧
      kid.start = sub.start ∧ kid.child = m := by
  obtain ⟨k, less, dir, at_k, kid, member, name, node, own, child⟩ := (assignSectors_assigns nodes).parent 0 rfl there later
  rw [Nat.zero_add] at child
  exact ⟨k, less, dir, at_k, kid, member, name, node, own, child⟩

/-- What holds of the root and of all directories below it. -/
structure Everywhere (P : List Node → Prop) (nodes : List Node) : Prop where
  root : P nodes
  dirs : ∀ name kids, .dir name kids ∈ below nodes → P kids

theorem mem_below_iff {node : Node} : node ∈ below nodes ↔ ∃ dir ∈ (imageOf nodes).dirs, ∃ kid ∈ dir.kids, kid.node = node := by
  rw [← (image_nodes nodes).mem_iff, allNodes, List.mem_flatMap]
  simp only [List.mem_map]

theorem everywhere_iff {P : List Node → Prop} : Everywhere P nodes ↔ ∀ dir ∈ (imageOf nodes).dirs, P dir.nodes := by
  constructor
  · intro all dir member
    obtain ⟨m, at_m⟩ := List.mem_iff_getElem?.mp member
    rcases Nat.eq_zero_or_pos m with rfl | later
    · obtain ⟨root, at_root, -, same⟩ := image_root nodes
      cases Option.some.inj (at_m.symm.trans at_root)
      rw [same]
      exact all.root
    · obtain ⟨k, -, parent, at_k, kid, inside, name, node, -⟩ := image_parent at_m later
      exact all.dirs name _ (mem_below_iff.mpr ⟨parent, List.mem_of_getElem? at_k, kid, inside, node⟩)
  · intro all
    constructor
    · obtain ⟨root, at_root, -, same⟩ := image_root nodes
      rw [← same]
      exact all root (List.mem_of_getElem? at_root)
    · intro name kids member
      obtain ⟨parent, inside, kid, among, node⟩ := mem_below_iff.mp member
      obtain ⟨k, at_k⟩ := List.mem_iff_getElem?.mp inside
      obtain ⟨sub, at_child, -, same⟩ := image_child at_k among node
      rw [← same]
      exact all sub (List.mem_of_getElem? at_child)

end Image

end KosTool.Xiso
