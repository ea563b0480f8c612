import KosTool.Model.Host.Download

/-! # The passes of a download end, and what they return

Every pass counts, so the loop ends within its bound. What it returns is decided before the chunks are looked at again: a last
pass that fills the last chunk is taken for a failure.
-/

namespace KosTool.Host.Download

open ByteWord Protocol Client

variable {download : Download}

/-- The chunk that a pass asks for. -/
def firstMissing (download : Download) (receiver : Receiver) : ℕ := mapScan receiver.map 0 download.numChunks.toNat

/-- A chunk of the map has not arrived. -/
def Missing (download : Download) (receiver : Receiver) : Prop :=
  ∃ k < download.numChunks.toNat, receiver.map k = false

/-- The receiver and the passes without progress after so many passes, whatever their number is. -/
def afterPasses (download : Download) (receiver : Receiver) (replies : ℕ → List (List Byte)) : ℕ → Receiver × ℕ
  | 0 => (receiver, 0)
  | passes + 1 =>
    let before := afterPasses download receiver replies passes
    let c := download.firstMissing before.1
    let after := download.takeReplies before.1 c (replies passes)
    (after, if after.map c then 0 else before.2 + 1)

/-- The pass that exhausts the bound is the one that fills the last chunk. -/
def LastPassFills (download : Download) (maxRerequests : ℕ) (receiver : Receiver) (replies : ℕ → List (List Byte)) : Prop :=
  (∀ passes < download.numChunks.toNat + maxRerequests, download.Missing (afterPasses download receiver replies passes).1 ∧
    (afterPasses download receiver replies passes).2 < maxRerequests) ∧
    ¬download.Missing (afterPasses download receiver replies (download.numChunks.toNat + maxRerequests)).1

theorem missing_iff (receiver : Receiver) : download.Missing receiver ↔ download.firstMissing receiver ≠ download.numChunks.toNat := by
  obtain ⟨upper, set, clear⟩ := (mapScan_eq_iff receiver.map download.numChunks.toNat _).mp rfl
  constructor
  · rintro ⟨k, inside, missing⟩ all
    have bit := set k (by rw [firstMissing] at all; omega)
    rw [missing] at bit
    nomatch bit
  · intro early
    have inside : download.firstMissing receiver < download.numChunks.toNat := lt_of_le_of_ne upper early
    exact ⟨_, inside, clear inside⟩

/-- What the loop has come to, in terms of the passes alone. -/
structure StopsAt (download : Download) (maxRerequests : ℕ) (receiver : Receiver) (replies : ℕ → List (List Byte))
    (stopped : Stopped) : Prop where
  receiver_eq : stopped.receiver = (afterPasses download receiver replies stopped.passes).1
  passes_le : stopped.passes ≤ download.numChunks.toNat + maxRerequests
  before : ∀ passes < stopped.passes, download.Missing (afterPasses download receiver replies passes).1 ∧
    (afterPasses download receiver replies passes).2 < maxRerequests
  code : (stopped.code = 0 ∧ ¬download.Missing stopped.receiver ∧ stopped.passes < download.numChunks.toNat + maxRerequests) ∨
    (stopped.code = -1 ∧ 0 < stopped.passes ∧ (maxRerequests ≤ (afterPasses download receiver replies stopped.passes).2 ∨
      stopped.passes = download.numChunks.toNat + maxRerequests))

/-- The loop ends, whatever arrives. -/
theorem rerequestLoop_stops {maxRerequests : ℕ} {receiver : Receiver} {replies : ℕ → List (List Byte)} {turns passes : ℕ}
    (enough : download.numChunks.toNat + maxRerequests ≤ passes + turns) (fresh : passes < download.numChunks.toNat + maxRerequests)
    (before : ∀ earlier < passes, download.Missing (afterPasses download receiver replies earlier).1 ∧
      (afterPasses download receiver replies earlier).2 < maxRerequests)
    (running : (afterPasses download receiver replies passes).2 < maxRerequests) :
    ∃ stopped, rerequestLoop download maxRerequests replies turns (afterPasses download receiver replies passes).1 passes
        (afterPasses download receiver replies passes).2 = some stopped ∧
      StopsAt download maxRerequests receiver replies stopped := by
  induction turns generalizing passes with
  | zero => omega
  | succ turns ih =>
    rw [rerequestLoop]
    by_cases missing : download.Missing (afterPasses download receiver replies passes).1
    · have early := (missing_iff _).mp missing
      rw [firstMissing] at early
      rw [if_neg early]
      change ∃ stopped, (if maxRerequests ≤ (afterPasses download receiver replies (passes + 1)).2 ∨
        download.numChunks.toNat + maxRerequests ≤ passes + 1 then
          some ⟨(afterPasses download receiver replies (passes + 1)).1, passes + 1, -1⟩
        else rerequestLoop download maxRerequests replies turns (afterPasses download receiver replies (passes + 1)).1 (passes + 1)
          (afterPasses download receiver replies (passes + 1)).2) = some stopped ∧ _
      have through : ∀ earlier < passes + 1, download.Missing (afterPasses download receiver replies earlier).1 ∧
          (afterPasses download receiver replies earlier).2 < maxRerequests := by
        intro earlier below
        rcases Nat.lt_succ_iff_lt_or_eq.mp below with past | rfl
        · exact before earlier past
        · exact ⟨missing, running⟩
      split_ifs with overrun
      · refine ⟨_, rfl, rfl, fresh, through, .inr ⟨rfl, Nat.succ_pos passes, overrun.imp_right fun bound => ?_⟩⟩
        exact Nat.le_antisymm fresh bound
      · rw [not_or, not_le, not_le] at overrun
        exact ih (by omega) overrun.2 through overrun.1
    · have all := not_not.mp (mt (missing_iff _).mpr missing)
      rw [firstMissing] at all
      rw [if_pos all]
      exact ⟨_, rfl, rfl, fresh.le, before, .inl ⟨rfl, missing, fresh⟩⟩

/-- A pass without progress leaves its chunk missing. -/
theorem missing_of_stalled {receiver : Receiver} {replies : ℕ → List (List Byte)} {passes : ℕ} (counted : 0 < passes)
    (before : ∀ earlier < passes, download.Missing (afterPasses download receiver replies earlier).1)
    (stalled : 0 < (afterPasses download receiver replies passes).2) :
    download.Missing (afterPasses download receiver replies passes).1 := by
  obtain ⟨earlier, rfl⟩ := Nat.exists_eq_succ_of_ne_zero counted.ne'
  have upper := ((mapScan_eq_iff (afterPasses download receiver replies earlier).1.map download.numChunks.toNat _).mp rfl).1
  have early := (missing_iff _).mp (before earlier (Nat.lt_succ_self earlier))
  refine ⟨download.firstMissing (afterPasses download receiver replies earlier).1, lt_of_le_of_ne upper early, ?_⟩
  by_contra arrived
  rw [Bool.not_eq_false] at arrived
  rw [afterPasses] at stalled arrived
  dsimp only at stalled arrived
  rw [if_pos arrived] at stalled
  exact Nat.lt_irrefl 0 stalled

/-- The passes end within their bound, and the loop fails exactly if a chunk is missing, unless the last pass of all fills the
last chunk. -/
theorem rerequest_returns_iff (download : Download) {maxRerequests : ℕ} (positive : 0 < maxRerequests) (receiver : Receiver)
    (replies : ℕ → List (List Byte)) :
    ∃ stopped, rerequestLoop download maxRerequests replies (download.numChunks.toNat + maxRerequests) receiver 0 0 =
        some stopped ∧ stopped.passes ≤ download.numChunks.toNat + maxRerequests ∧
      ((stopped.code = -1 ↔ download.Missing stopped.receiver) ↔ ¬download.LastPassFills maxRerequests receiver replies) := by
  obtain ⟨stopped, result, stops⟩ := @rerequestLoop_stops download maxRerequests receiver replies
    (download.numChunks.toNat + maxRerequests) 0 (by omega) (by omega) (fun _ below => absurd below (Nat.not_lt_zero _)) positive
  refine ⟨stopped, result, stops.passes_le, ?_⟩
  rcases stops.code with ⟨zero, full, early⟩ | ⟨failed, counted, overrun⟩
  · have right : stopped.code = -1 ↔ download.Missing stopped.receiver := by
      rw [zero]
      exact iff_of_false (by decide) full
    refine iff_of_true right fun fills => ?_
    rw [stops.receiver_eq] at full
    exact full (fills.1 _ early).1
  · have before := fun earlier below => (stops.before earlier below).1
    constructor
    · intro right fills
      have missing := right.mp failed
      rw [stops.receiver_eq] at missing
      rcases overrun with stalled | last
      · rcases Nat.lt_or_eq_of_le stops.passes_le with early | last
        · exact absurd (fills.1 _ early).2 (not_lt.mpr stalled)
        · exact fills.2 (last ▸ missing)
      · exact fills.2 (last ▸ missing)
    · intro unfilled
      refine iff_of_true failed ?_
      rw [stops.receiver_eq]
      by_cases stalled : 0 < (afterPasses download receiver replies stopped.passes).2
      · exact missing_of_stalled counted before stalled
      · by_contra full
        have last := overrun.resolve_left (by omega)
        exact unfilled ⟨last ▸ stops.before, last ▸ full⟩

section Runs

/-- A download of two chunks. -/
def twoChunks : Download := ⟨0x8c010000, 2880, true, false, false⟩

/-- A download for which nothing has arrived. -/
def nothingArrived : Receiver := ⟨.idle, fun _ => 0, fun _ => 0, fun _ => false⟩

/-- A console's answer with a chunk. -/
def chunkReply (address : Word) : List Byte := be32 netCmdSendbin ++ be32 address ++ be32 1440 ++ List.replicate 1440 7

/-- Nine passes get no answer, then the first chunk arrives, then a pass gets no answer, then the second chunk arrives. -/
def slowReplies : ℕ → List (List Byte)
  | 9 => [chunkReply 0x8c010000]
  | 11 => [chunkReply 0x8c0105a0]
  | _ => []

theorem rerequest_returns_slow : ∃ stopped,
    rerequestLoop twoChunks maxRecvRerequests slowReplies (twoChunks.numChunks.toNat + maxRecvRerequests) nothingArrived 0 0 =
      some stopped ∧ stopped.passes ≤ twoChunks.numChunks.toNat + maxRecvRerequests ∧
    ((stopped.code = -1 ↔ twoChunks.Missing stopped.receiver) ↔
      ¬twoChunks.LastPassFills maxRecvRerequests nothingArrived slowReplies) :=
  rerequest_returns_iff twoChunks (by decide) nothingArrived slowReplies

/-- The twelfth pass fills the second of two chunks, and the download fails. -/
theorem last_pass_fails : ∃ stopped,
    rerequestLoop twoChunks maxRecvRerequests slowReplies (twoChunks.numChunks.toNat + maxRecvRerequests) nothingArrived 0 0 =
      some stopped ∧ stopped.code = -1 ∧ ¬twoChunks.Missing stopped.receiver := by
  have outcome : (rerequestLoop twoChunks maxRecvRerequests slowReplies (twoChunks.numChunks.toNat + maxRecvRerequests)
      nothingArrived 0 0).map (fun stopped => (stopped.code, stopped.receiver.map 0, stopped.receiver.map 1)) =
        some (-1, true, true) := by rfl
  obtain ⟨stopped, result, values⟩ := Option.map_eq_some_iff.mp outcome
  rw [Prod.mk.injEq, Prod.mk.injEq] at values
  refine ⟨stopped, result, values.1, ?_⟩
  rintro ⟨k, inside, missing⟩
  have two : twoChunks.numChunks.toNat = 2 := rfl
  obtain rfl | rfl : k = 0 ∨ k = 1 := by omega
  · exact Bool.noConfusion (missing.symm.trans values.2.1)
  · exact Bool.noConfusion (missing.symm.trans values.2.2)

end Runs

end KosTool.Host.Download
