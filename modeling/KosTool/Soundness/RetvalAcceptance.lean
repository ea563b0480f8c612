import KosTool.Model.Client.SyscallWait

/-! # Which `RETV` completes a syscall

With a tool of version 3.0.0 or newer every answer should end in the trailer of the request in
flight. The handler compares a trailer it finds, and accepts a datagram in which it finds none: the
syscall result is safe exactly along the sessions whose `RETV` datagrams all end in some trailer, or
repeat what the loader already holds.
-/

namespace KosTool.Client

open ByteWord Protocol

namespace Loader

variable (target : Target) (loader : Loader) (udp : Udp) (now : ℕ)

/-- The datagram is a header, data and the trailer of the current sequence id. -/
def CarriesCurrentTrailer : Prop :=
  netCommandLen + netSeqTrailerLen ≤ udp.length.toNat - udpHeaderLen ∧
    readBe32 loader.rx (udp.data + (udp.length.toNat - udpHeaderLen) - netSeqTrailerLen) = netSeqMagic ∧
    loader.echoed udp = loader.kosSyscallSeq

/-- What a syscall reads off the loader once its wait is over. -/
def syscallResult : Word × Option ℕ × ℕ × Bool :=
  (loader.syscallRetval, loader.syscallData, loader.syscallDataLen, loader.escapeLoop)

/-- Only the answer to the current request changes the result, and the data length stays inside the
datagram. -/
structure RetvalSafe : Prop where
  current : (loader.processUdp target udp now).1.syscallResult ≠ loader.syscallResult →
    loader.CarriesCurrentTrailer udp
  bounded : (loader.processUdp target udp now).1.syscallDataLen ≠ loader.syscallDataLen →
    (loader.processUdp target udp now).1.syscallDataLen ≤ udp.length.toNat - udpHeaderLen - netCommandLen

/-- The datagram repeats the result the loader already holds. -/
def RetvalRepeats : Prop :=
  loader.syscallResult = (commandAddress loader.rx udp.data, some (commandData udp.data),
    udp.length.toNat - udpHeaderLen - netCommandLen, true)

/-- The datagram ends in a trailer, of whichever request, or repeats the result in place. -/
def RetvalTagged : Prop := loader.Trailered udp ∨ loader.RetvalRepeats udp

instance : Decidable (loader.RetvalTagged udp) := inferInstanceAs (Decidable (_ ∨ (_ = _)))

variable {target loader udp now}

theorem cmdRetval_stale (trailered : loader.Trailered udp) (stale : loader.echoed udp ≠ loader.kosSyscallSeq) :
    (loader.cmdRetval udp).1 = loader := by
  unfold cmdRetval
  simp only [trailered, stale, ne_eq, not_false_eq_true, and_self, if_true]
  split <;> rfl

/-- Without a trailer to compare, every answer is accepted. -/
theorem cmdRetval_untrailered (running : loader.running = true) (long : udpHeaderLen ≤ udp.length.toNat)
    (untrailered : ¬ loader.Trailered udp) :
    (loader.cmdRetval udp).1.syscallResult = (commandAddress loader.rx udp.data, some (commandData udp.data),
      udp.length.toNat - udpHeaderLen - netCommandLen, true) := by
  unfold cmdRetval
  rw [if_neg (by rw [running]; simp only [not_true_eq_false, false_or]; omega),
    if_neg fun both => untrailered both.1]
  simp only [syscallResult, untrailered, false_and, if_false]

theorem cmdRetval_dataLen (loader : Loader) (udp : Udp) : (loader.cmdRetval udp).1.syscallDataLen = loader.syscallDataLen ∨
    (loader.cmdRetval udp).1.syscallDataLen ≤ udp.length.toNat - udpHeaderLen - netCommandLen := by
  unfold cmdRetval
  split_ifs
  · exact Or.inl rfl
  · exact Or.inl rfl
  · refine Or.inr ?_
    dsimp only
    split
    · exact Nat.sub_le _ _
    · exact le_rfl

/-- While a program runs under a tool of version 3.0.0, a `RETV` is safe exactly when it is tagged. -/
theorem retvalSafe_iff_tagged (running : loader.running = true) (version : loader.HostSupportsDedup)
    (takes : loader.Takes udp netCmdRetval) : loader.RetvalSafe target udp now ↔ loader.RetvalTagged udp := by
  have bounded := cmdRetval_dataLen loader udp
  rw [show loader.cmdRetval udp = loader.processUdp target udp now from (processUdp_retval takes).symm] at bounded
  constructor
  · intro safe
    refine or_iff_not_imp_left.mpr fun untrailered => ?_
    by_contra fresh
    have accepted := cmdRetval_untrailered running takes.1 untrailered
    have carries := safe.current (by
      rw [processUdp_retval takes, accepted]
      exact fun same => fresh same.symm)
    exact untrailered ⟨version, carries.1, carries.2.1⟩
  · intro tagged
    refine ⟨fun changed => ?_, fun changed => bounded.resolve_left changed⟩
    rw [processUdp_retval takes] at changed
    by_cases trailered : loader.Trailered udp
    · refine ⟨trailered.2.1, trailered.2.2, ?_⟩
      by_contra stale
      exact changed (congrArg syscallResult (cmdRetval_stale trailered stale))
    · have repeats := tagged.resolve_left trailered
      exact absurd ((cmdRetval_untrailered running takes.1 trailered).trans repeats.symm) changed

end Loader

section Session

variable (target : Target)

/-- The step hands a `RETV` to a running program under a tool of version 3.0.0. -/
def TakesRetval (loader : Loader) (arrival : Arrival) : Prop :=
  loader.running = true ∧ loader.HostSupportsDedup ∧
    (loader.receiving arrival).Takes arrival.udp netCmdRetval

instance (loader : Loader) (arrival : Arrival) : Decidable (TakesRetval loader arrival) :=
  inferInstanceAs (Decidable (_ ∧ _ ∧ _))

/-- If the step takes a `RETV`, only the answer to the current request changes the result. -/
def RetvalStepSafe (loader : Loader) : SessionEvent → Prop
  | .datagram arrival now => TakesRetval loader arrival →
      (loader.receiving arrival).RetvalSafe target arrival.udp now
  | _ => True

/-- If the step takes a `RETV`, it ends in a trailer or repeats the result in place. -/
def RetvalStepTagged (loader : Loader) : SessionEvent → Prop
  | .datagram arrival _ => TakesRetval loader arrival →
      (loader.receiving arrival).RetvalTagged arrival.udp
  | _ => True

instance (loader : Loader) : (event : SessionEvent) → Decidable (RetvalStepTagged loader event)
  | .datagram _ _ => inferInstanceAs (Decidable (_ → _))
  | .sendPacket _ | .armWait _ _ | .leaveLoop | .giveUp | .executeReturns => isTrue trivial

theorem retvalStepSafe_iff_tagged (loader : Loader) (event : SessionEvent) :
    RetvalStepSafe target loader event ↔ RetvalStepTagged loader event := by
  cases event with
  | datagram arrival now =>
    exact imp_congr_right fun takes => Loader.retvalSafe_iff_tagged takes.1 takes.2.1 takes.2.2
  | sendPacket | armWait | leaveLoop | giveUp | executeReturns => exact Iff.rfl

/-- Over a whole session, only answers to the request in flight change the result of a syscall exactly
if every `RETV` ends in a trailer or repeats the result in place. -/
theorem session_retval_safe_iff_tagged (source : Loader) (events : List SessionEvent) :
    (sessionMachine target).Along (RetvalStepSafe target) source events ↔
      (sessionMachine target).Along RetvalStepTagged source events :=
  Machine.LabeledMachine.along_congr (retvalStepSafe_iff_tagged target) source events

end Session

/-- The first syscall is answered in full, and the first twelve bytes of that answer arrive again while
the second one waits. -/
def truncatedRetvalSession : List SessionEvent :=
  [.datagram (.intact (netCommand netCmdVersion 0x00030000 0 [])) 0,
    .datagram (.intact (netCommand netCmdExecute 0x8c010000 1 [])) 0,
    .sendPacket (be32 (fourCC 'D' 'C' '0' '5') ++ be32 3),
    .datagram (.intact (netCommand netCmdRetval 7 7 (seqTrailer 1))) 0,
    .leaveLoop,
    .sendPacket (be32 (fourCC 'D' 'C' '0' '5') ++ be32 4),
    .datagram (.intact (netCommand netCmdRetval 7 7 [])) 0]

theorem session_retval_unsafe :
    ¬ (sessionMachine .dreamcast).Along (RetvalStepSafe .dreamcast) (.start (fun _ => 0) fun _ => 0)
      truncatedRetvalSession := by
  rw [Machine.LabeledMachine.along_congr (retvalStepSafe_iff_tagged _)]
  decide +kernel

end KosTool.Client
