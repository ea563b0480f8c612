import KosTool.Soundness.DhcpTransaction

/-! # How long a leased address is kept

The countdown of a lease never runs ahead of the RTC: it is set with the grant, goes down by one where the RTC
has gone on by one at least, and is set back to what the RTC says now and then. So a renewal is not begun before
half of the lease is over, and an address is not dropped before its end. It is dropped or asked for anew once the
lease is over, if the countdown is not behind the RTC then.
-/

namespace KosTool.Client

open Machine

namespace Grant

variable (grant : Grant)

/-- The end of the lease. -/
def expires : ℕ := grant.rtc + grant.leaseTime.toNat

/-- Three eighths of the lease, rounded as the code means to. -/
def nakMargin : ℕ := (grant.leaseTime.toNat * 3 + 4) / 8

/-- Until when the code means to keep the address: its end, or a while after its renewal was refused. -/
def keptUntil : ℕ :=
  match grant.nakRtc with
  | none => grant.expires
  | some nakRtc => nakRtc + grant.nakMargin

end Grant

namespace DhcpPc

/-- An address is being discovered. -/
def Discovering : DhcpPc → Prop
  | .offerWait _ _ | .ackWait _ _ => True
  | .idle | .renewWait _ _ => False

/-- A renewal is being waited for. -/
def Renewing : DhcpPc → Prop
  | .renewWait _ _ => True
  | .idle | .offerWait _ _ | .ackWait _ _ => False

instance : (pc : DhcpPc) → Decidable pc.Discovering
  | .offerWait _ _ | .ackWait _ _ => isTrue trivial
  | .idle | .renewWait _ _ => isFalse id

instance : (pc : DhcpPc) → Decidable pc.Renewing
  | .renewWait _ _ => isTrue trivial
  | .idle | .offerWait _ _ | .ackWait _ _ => isFalse id

end DhcpPc

namespace DhcpClient

variable (console : DhcpConsole) (client : DhcpClient)

/-- A step keeps to the lease. -/
structure LeaseRight (event : DhcpEvent) (next : DhcpClient) : Prop where
  /-- A renewal is begun after half of the lease. -/
  renewal : client.pc = .idle → next.pc.Renewing → ∀ grant, client.granted = some grant →
    grant.rtc + (grant.leaseTime.toNat - grant.leaseTime.toNat / 2) ≤ client.rtc console
  /-- A discovery is begun after the lease, or the margin after a refused renewal. -/
  discovery : ¬ client.pc.Discovering → next.pc.Discovering → ∀ grant, next.granted = some grant →
    grant.expires ≤ next.rtc console ∨
      ∃ nakRtc, grant.nakRtc = some nakRtc ∧ nakRtc + grant.nakMargin ≤ next.rtc console
  /-- Before the end of the lease the address stays in use, or a fresh one is. -/
  kept : ∀ grant, client.granted = some grant → client.rtc console < grant.expires →
    ∃ after, next.granted = some after ∧
      ((after.rtc = grant.rtc ∧ after.leaseTime = grant.leaseTime ∧ next.ourIp = client.ourIp) ∨
        after.rtc = client.rtc console)
  /-- After the end of the lease a poll asks for an address. -/
  polled : event = .poll → ∀ grant, client.granted = some grant → grant.expires ≤ client.rtc console →
    next.pc ≠ .idle
  /-- A renewal that ends after the lease has renewed it, or the address is dropped or asked for anew. -/
  renewed : event = .loopReturns → client.pc.Renewing → ∀ grant, client.granted = some grant →
    grant.expires ≤ client.rtc console →
      next.granted = none ∨ next.pc.Discovering ∨ ∃ after, next.granted = some after ∧ after.rtc = client.rtc console

/-- The granted lease can be counted in 32 bits, and its address is one the loader takes for an address. -/
structure GrantFits : Prop where
  positive : client.dhcpLeaseTime ≠ 0#32
  expires : client.rtc console + client.dhcpLeaseTime.toNat < 2 ^ 32
  address : client.dhcpofferIp &&& 0xff000000#32 ≠ 0#32

/-- The discovery ends without an address when the wait is over. -/
def GivesUp : Prop :=
  match client.pc with
  | .idle | .renewWait _ _ => False
  | .offerWait _ _ => client.timeoutLoop < 0 ∧ client.dhcpAcked = false ∧ dhcpMaxAttempts ≤ client.dhcpAttempts
  | .ackWait _ nakCount =>
    (0 ≤ client.timeoutLoop ∧ client.dhcpNakReceived ∧ dhcpMaxNaks ≤ nakCount + 1) ∨
      (client.dhcpAcked = false ∧ dhcpMaxAttempts ≤ client.dhcpAttempts)

/-- A wait ends without harm to the lease. -/
structure LoopFits : Prop where
  granted : client.pc ≠ .idle → client.dhcpAcked → ¬ (client.pc.Renewing ∧ client.dhcpRenewalNak) →
    ¬ client.GivesUp → client.GrantFits console
  refused : client.pc.Renewing → client.dhcpRenewalNak → ∀ grant, client.granted = some grant →
    grant.leaseTime.toNat * 3 + 4 < 2 ^ 32 ∧ client.rtc console + grant.nakMargin ≤ grant.expires
  lost : client.pc.Renewing → client.dhcpRenewalNak = false → client.dhcpAcked = false →
    ∀ grant, client.granted = some grant → grant.expires ≤ client.rtc console → client.leaseDisplaySecs = 0#32
  givesUp : client.GivesUp → ∀ grant, client.granted = some grant → grant.expires ≤ client.rtc console

/-- What is stored about a lease agrees with its grant. -/
structure GrantInv (pc : DhcpPc) (grant : Grant) : Prop where
  positive : grant.leaseTime ≠ 0#32
  expires : grant.expires < 2 ^ 32
  keptUntil : grant.keptUntil ≤ grant.expires
  expiry : client.leaseExpiryRtc.toNat = grant.keptUntil
  ahead : grant.keptUntil ≤ client.leaseDisplaySecs.toNat + client.rtcAt console client.lastDisplayTick
  spent : grant.keptUntil = 0 → client.leaseDisplaySecs = 0#32
  address : client.ourIp &&& 0xff000000#32 ≠ 0#32
  phase : match pc with
    | .idle =>
      match grant.nakRtc with
      | none => client.dontRenew = false ∧ client.dhcpLeaseTime = grant.leaseTime ∧
          client.renewThreshold.toNat ≤ grant.leaseTime.toNat / 2
      | some _ => client.dontRenew = true
    | .offerWait _ _ | .ackWait _ _ => grant.nakRtc ≠ none
    | .renewWait _ saved => grant.nakRtc = none ∧ saved = grant.leaseTime ∧
        client.leaseDisplaySecs.toNat ≤ grant.leaseTime.toNat / 2

/-- What the code stores agrees with the lease, at a point of it. -/
structure LeaseInvAt (pc : DhcpPc) : Prop where
  tick : client.lastDisplayTick ≤ client.ticks
  rtc : client.rtc console < 2 ^ 32
  nest : client.dhcpNestCounterMaxed = false
  renews : pc ≠ .idle → client.dontRenew = false
  grant : ∀ grant, client.granted = some grant → client.GrantInv console pc grant

/-- What the code stores agrees with the lease. -/
def LeaseInv : Prop := client.LeaseInvAt console client.pc

variable {console client}

theorem rtcAt_mono {first second : ℕ} (le : first ≤ second) : client.rtcAt console first ≤ client.rtcAt console second :=
  Nat.div_le_div_right (Nat.add_le_add_left le _)

theorem LeaseInvAt.rtcAt_le {pc : DhcpPc} (inv : client.LeaseInvAt console pc) :
    client.rtcAt console client.lastDisplayTick ≤ client.rtc console := rtcAt_mono inv.tick

theorem toNat_getRtc (inRange : client.rtc console < 2 ^ 32) : (client.getRtc console).toNat = client.rtc console := by
  rw [getRtc, BitVec.toNat_ofNat, Nat.mod_eq_of_lt inRange]

/-- Where the tick counter has gone on by a second, so has the RTC. -/
theorem rtcAt_succ_le {first second : ℕ} (elapsed : first + console.ticksPerSecond ≤ second) :
    client.rtcAt console first + 1 ≤ client.rtcAt console second := by
  rw [rtcAt, rtcAt, ← Nat.add_div_right _ console.ticks_pos]
  exact Nat.div_le_div_right (by omega)

/-- A fresh lease agrees with its grant. -/
theorem freshLease_inv (inRange : client.rtc console < 2 ^ 32)
    (nest : client.dhcpNestCounterMaxed = false) (renews : client.dontRenew = false)
    (positive : client.dhcpLeaseTime ≠ 0#32) (expires : client.rtc console + client.dhcpLeaseTime.toNat < 2 ^ 32)
    (address : client.ourIp &&& 0xff000000#32 ≠ 0#32) : (client.freshLease console).LeaseInvAt console .idle where
  tick := Nat.le_refl _
  rtc := inRange
  nest := nest
  renews _ := renews
  grant grant granted := by
    obtain rfl := Option.some.inj granted
    refine ⟨positive, expires, Nat.le_refl _, ?_, ?_, ?_, address, renews, rfl, ?_⟩
    · change (client.getRtc console + client.dhcpLeaseTime).toNat = _
      rw [BitVec.toNat_add, toNat_getRtc inRange]
      exact Nat.mod_eq_of_lt expires
    · exact (Nat.add_comm _ _).le
    · intro zero
      exact absurd (Nat.add_eq_zero_iff.mp zero).2 (BitVec.toNat_pos_of_ne_zero positive).ne'
    · exact (BitVec.toNat_udiv).le

/-- What a resync sets the countdown to. -/
theorem toNat_resyncSecs (client : DhcpClient) (inRange : client.rtc console < 2 ^ 32) :
    (if client.getRtc console < client.leaseExpiryRtc then client.leaseExpiryRtc - client.getRtc console
      else 0#32).toNat = client.leaseExpiryRtc.toNat - client.rtc console := by
  split
  · rename_i before
    rw [BitVec.toNat_sub_of_le (BitVec.le_of_lt before), toNat_getRtc inRange]
  · rename_i after
    have reached := Nat.not_lt.mp after
    rw [toNat_getRtc inRange] at reached
    exact (Nat.sub_eq_zero_of_le reached).symm

theorem dispInfo_of_ne (stored : client.leaseExpiryRtc ≠ 0#32) :
    client.dispInfo console = { client.redrawn with
      leaseDisplaySecs := if client.getRtc console < client.leaseExpiryRtc
        then client.leaseExpiryRtc - client.getRtc console else 0#32
      lastDisplayTick := client.ticks } := by
  rw [dispInfo, if_neg stored]
  exact if_neg stored

/-- After a redraw the countdown is no longer than before, and not ahead. -/
theorem GrantInv.dispInfo {pc : DhcpPc} {grant : Grant} (inRange : client.rtc console < 2 ^ 32)
    (tick : client.lastDisplayTick ≤ client.ticks) (inv : client.GrantInv console pc grant) :
    (client.dispInfo console).GrantInv console pc grant := by
  have reached : client.rtcAt console client.lastDisplayTick ≤ client.rtc console := rtcAt_mono tick
  have ahead := inv.ahead
  by_cases zero : client.leaseExpiryRtc = 0#32
  · rw [DhcpClient.dispInfo, if_pos zero]
    exact { inv with ahead := ahead.trans (Nat.add_le_add_left reached _) }
  · rw [dispInfo_of_ne zero]
    have secs := toNat_resyncSecs client inRange
    rw [inv.expiry] at secs
    have phase := inv.phase
    refine ⟨inv.positive, inv.expires, inv.keptUntil, inv.expiry, ?_, ?_, inv.address, ?_⟩
    · change grant.keptUntil ≤ (ite _ _ _ : Word).toNat + client.rtc console
      rw [secs]
      omega
    · intro spent
      exact absurd (inv.expiry.trans spent) (BitVec.toNat_pos_of_ne_zero zero).ne'
    · cases pc with
      | idle => exact phase
      | offerWait => exact phase
      | ackWait => exact phase
      | renewWait request saved =>
        refine ⟨phase.1, phase.2.1, le_trans ?_ phase.2.2⟩
        change (ite _ _ _ : Word).toNat ≤ _
        rw [secs]
        omega

theorem dispInfo_frame (console : DhcpConsole) (client : DhcpClient) :
    (client.dispInfo console).pc = client.pc ∧ (client.dispInfo console).granted = client.granted ∧
    (client.dispInfo console).ourIp = client.ourIp ∧ (client.dispInfo console).ticks = client.ticks ∧
    (client.dispInfo console).lastDisplayTick = client.ticks ∧ (client.dispInfo console).rtcEpoch = client.rtcEpoch ∧
    (client.dispInfo console).dhcpNestCounterMaxed = client.dhcpNestCounterMaxed ∧
    (client.dispInfo console).dontRenew = client.dontRenew := by
  unfold dispInfo leaseResyncFromRtc
  split_ifs <;> exact ⟨rfl, rfl, rfl, rfl, rfl, rfl, rfl, rfl⟩

theorem LeaseInvAt.dispInfo {pc : DhcpPc} (inv : client.LeaseInvAt console pc) :
    (client.dispInfo console).LeaseInvAt console pc := by
  obtain ⟨-, granted, -, ticks, last, epoch, nest, renew⟩ := dispInfo_frame console client
  refine ⟨(last.trans ticks.symm).le, ?_, nest.trans inv.nest, fun waits => renew.trans (inv.renews waits), ?_⟩
  · rw [DhcpClient.rtc, rtcAt, ticks, epoch]
    exact inv.rtc
  · intro grant held
    exact (inv.grant grant (granted.symm.trans held)).dispInfo inv.rtc inv.tick

theorem LeaseInvAt.dhcpTick (inv : client.LeaseInvAt console .idle) :
    (client.dhcpTick console).LeaseInvAt console .idle := by
  unfold DhcpClient.dhcpTick
  split_ifs with stopped early
  · exact inv
  · exact inv
  · refine ⟨Nat.le_refl _, inv.rtc, inv.nest, inv.renews, fun grant held => ?_⟩
    have held := inv.grant grant held
    have ahead := held.ahead
    have elapsed : client.rtcAt console client.lastDisplayTick + 1 ≤ client.rtcAt console client.ticks :=
      rtcAt_succ_le (by have := inv.tick; omega)
    have less : (client.leaseDisplaySecs - 1#32).toNat = client.leaseDisplaySecs.toNat - 1 :=
      BitVec.toNat_sub_of_le (by rw [BitVec.le_def]; exact BitVec.toNat_pos_of_ne_zero stopped)
    refine ⟨held.positive, held.expires, held.keptUntil, held.expiry, ?_, ?_, held.address, held.phase⟩
    · change grant.keptUntil ≤ (client.leaseDisplaySecs - 1#32).toNat + client.rtcAt console client.ticks
      rw [less]
      omega
    · intro spent
      exact absurd (held.spent spent) stopped

theorem dhcpTick_frame (console : DhcpConsole) (client : DhcpClient) :
    (client.dhcpTick console).pc = client.pc ∧ (client.dhcpTick console).granted = client.granted ∧
      (client.dhcpTick console).ourIp = client.ourIp := by
  unfold DhcpClient.dhcpTick
  split_ifs <;> exact ⟨rfl, rfl, rfl⟩

/-- The part of the state that a lease hangs on, without its phase. -/
def leaseState (client : DhcpClient) : Option Grant × Word × Word × Word × ℕ × ℕ × ℕ × Bool :=
  (client.granted, client.ourIp, client.leaseExpiryRtc, client.leaseDisplaySecs, client.lastDisplayTick,
    client.ticks, client.rtcEpoch, client.dhcpNestCounterMaxed)

/-- An invariant of a lease moves to another point if its phase does. -/
theorem LeaseInvAt.move {next : DhcpClient} {pc target : DhcpPc} (inv : client.LeaseInvAt console pc)
    (same : next.leaseState = client.leaseState) (renews : target ≠ .idle → next.dontRenew = false)
    (phase : ∀ grant, client.granted = some grant → client.GrantInv console pc grant →
      next.GrantInv console target grant) : next.LeaseInvAt console target := by
  simp only [leaseState, Prod.mk.injEq] at same
  obtain ⟨granted, -, -, -, last, ticks, epoch, nest⟩ := same
  refine ⟨?_, ?_, nest.trans inv.nest, renews, ?_⟩
  · rw [last, ticks]
    exact inv.tick
  · rw [DhcpClient.rtc, rtcAt, ticks, epoch]
    exact inv.rtc
  · intro grant held
    rw [granted] at held
    exact phase grant held (inv.grant grant held)

/-- What is stored elsewhere does not matter to a lease. -/
theorem LeaseInvAt.frame {next : DhcpClient} {pc : DhcpPc} (inv : client.LeaseInvAt console pc)
    (same : next.leaseState = client.leaseState) (renew : next.dontRenew = client.dontRenew)
    (threshold : next.renewThreshold = client.renewThreshold)
    (time : pc = .idle → next.dhcpLeaseTime = client.dhcpLeaseTime) : next.LeaseInvAt console pc := by
  have parts := same
  simp only [leaseState, Prod.mk.injEq] at parts
  obtain ⟨-, address, expiry, secs, last, -, epoch, -⟩ := parts
  refine inv.move same (fun waits => renew.trans (inv.renews waits)) fun grant held grantInv => ?_
  refine ⟨grantInv.positive, grantInv.expires, grantInv.keptUntil, ?_, ?_, ?_, ?_, ?_⟩
  · rw [expiry]
    exact grantInv.expiry
  · rw [secs, last, rtcAt, epoch]
    exact grantInv.ahead
  · rw [secs]
    exact grantInv.spent
  · rw [address]
    exact grantInv.address
  · have phase := grantInv.phase
    cases pc with
    | idle =>
      rw [renew, threshold, time rfl]
      exact phase
    | offerWait | ackWait => exact phase
    | renewWait =>
      rw [secs]
      exact phase

/-- What the discovery check comes to: nothing, or a discovery once the margin of a refused renewal has passed. -/
theorem pollDiscovery_spec (inv : client.LeaseInvAt console .idle) :
    (client.pollDiscovery console).LeaseInv console ∧
      (client.pollDiscovery console).granted = client.granted ∧
      (client.pollDiscovery console).ourIp = client.ourIp ∧
      (client.pollDiscovery console).rtc console = client.rtc console ∧
      ¬ (client.pollDiscovery console).pc.Renewing ∧
      (client.NeedsDiscovery → (client.pollDiscovery console).pc.Discovering) ∧
      ((client.pollDiscovery console).pc.Discovering → ∀ grant, client.granted = some grant →
        ∃ nakRtc, grant.nakRtc = some nakRtc ∧ nakRtc + grant.nakMargin ≤ client.rtc console) := by
  unfold pollDiscovery
  split_ifs with needs
  · have refused (grant : Grant) (held : client.granted = some grant) :
        ∃ nakRtc, grant.nakRtc = some nakRtc ∧ nakRtc + grant.nakMargin ≤ client.rtc console := by
      have grantInv := inv.grant grant held
      obtain ⟨dontRenew, stopped⟩ := needs.resolve_left grantInv.address
      have ahead := grantInv.ahead
      have reached := inv.rtcAt_le
      rw [stopped] at ahead
      have phase := grantInv.phase
      cases nak : grant.nakRtc with
      | none =>
        simp only [nak] at phase
        exact absurd (phase.1.symm.trans dontRenew) Bool.false_ne_true
      | some nakRtc =>
        simp only [Grant.keptUntil, nak, BitVec.toNat_zero, Nat.zero_add] at ahead
        exact ⟨nakRtc, rfl, ahead.trans reached⟩
    refine ⟨inv.move rfl (fun _ => rfl) fun grant held grantInv => ?_, rfl, rfl, rfl, id, fun _ => trivial,
      fun _ => refused⟩
    obtain ⟨nakRtc, nak, -⟩ := refused grant held
    have phase : grant.nakRtc ≠ none := by
      rw [nak]
      exact Option.some_ne_none nakRtc
    exact { grantInv with phase := phase }
  · refine ⟨inv.move rfl (absurd rfl) fun grant held grantInv => ⟨grantInv.1, grantInv.2, grantInv.3, grantInv.4,
      grantInv.5, grantInv.6, grantInv.7, grantInv.8⟩, rfl, rfl, rfl, id, fun needed => absurd needed needs, False.elim⟩

/-- A renewal that is begun is begun for a lease half of which is over. -/
theorem needsRenewal_grant (inv : client.LeaseInvAt console .idle) (needs : client.NeedsRenewal) {grant : Grant}
    (held : client.granted = some grant) :
    grant.nakRtc = none ∧ client.dhcpLeaseTime = grant.leaseTime ∧
      client.leaseDisplaySecs.toNat ≤ grant.leaseTime.toNat / 2 ∧
      grant.rtc + (grant.leaseTime.toNat - grant.leaseTime.toNat / 2) ≤ client.rtc console := by
  have grantInv := inv.grant grant held
  have phase := grantInv.phase
  have ahead := grantInv.ahead
  have reached := inv.rtcAt_le
  obtain ⟨-, renews, due⟩ := needs
  cases nak : grant.nakRtc with
  | some nakRtc =>
    simp only [nak] at phase
    exact absurd (renews.symm.trans phase) Bool.false_ne_true
  | none =>
    simp only [nak] at phase
    obtain ⟨-, same, threshold⟩ := phase
    have half := (BitVec.le_def.mp due).trans threshold
    simp only [Grant.keptUntil, nak, Grant.expires] at ahead
    exact ⟨rfl, same, half, by omega⟩

theorem dhcpRenew_inv (inv : client.LeaseInvAt console .idle) (needs : client.NeedsRenewal) :
    (dhcpRenew console { client with dhcpLeaseTime := 0 } client.dhcpLeaseTime).LeaseInv console := by
  refine inv.move rfl (fun _ => needs.2.1) fun grant held grantInv => ?_
  obtain ⟨nak, same, half, -⟩ := needsRenewal_grant inv needs held
  exact ⟨grantInv.1, grantInv.2, grantInv.3, grantInv.4, grantInv.5, grantInv.6, grantInv.7, nak, same, half⟩

theorem pollRenewal_leaseInv (inv : client.LeaseInvAt console .idle) : (client.pollRenewal console).LeaseInv console := by
  unfold pollRenewal
  split
  · rename_i needs
    exact dhcpRenew_inv inv needs
  · exact (pollDiscovery_spec inv).1

/-- With an expired lease and nothing left of the countdown, a poll asks for an address. -/
theorem pollRenewal_asks (inv : client.LeaseInvAt console .idle) {grant : Grant}
    (held : client.granted = some grant) (stopped : client.leaseDisplaySecs = 0#32) :
    (client.pollRenewal console).pc ≠ .idle := by
  have grantInv := inv.grant grant held
  have phase := grantInv.phase
  unfold pollRenewal
  cases nak : grant.nakRtc with
  | none =>
    simp only [nak] at phase
    obtain ⟨renews, same, -⟩ := phase
    rw [if_pos]
    · exact DhcpPc.noConfusion
    · refine ⟨same.trans_ne grantInv.positive, renews, ?_⟩
      rw [stopped]
      exact BitVec.le_def.mpr (Nat.zero_le _)
  | some nakRtc =>
    simp only [nak] at phase
    rw [if_neg fun needs => absurd (needs.2.1.symm.trans phase) Bool.false_ne_true]
    obtain ⟨-, -, -, -, -, asks, -⟩ := pollDiscovery_spec inv
    intro idle
    have discovering := asks (.inr ⟨phase, stopped⟩)
    rw [idle] at discovering
    exact discovering

/-- The state a poll looks at, after the redraw of a console that has not been booted. -/
def pollState (console : DhcpConsole) (client : DhcpClient) : DhcpClient :=
  if client.booted then client else client.dispInfo console

theorem pollState_spec (inv : client.LeaseInvAt console .idle) :
    (client.pollState console).LeaseInvAt console .idle ∧ (client.pollState console).granted = client.granted ∧
      (client.pollState console).ourIp = client.ourIp ∧
      (client.pollState console).rtc console = client.rtc console := by
  unfold pollState
  split
  · exact ⟨inv, rfl, rfl, rfl⟩
  · obtain ⟨-, granted, address, ticks, -, epoch, -, -⟩ := dispInfo_frame console client
    refine ⟨inv.dispInfo, granted, address, ?_⟩
    rw [rtc, rtc, rtcAt, rtcAt, ticks, epoch]

/-- After an expired lease nothing is left of the countdown, if that was so before or the redraw has seen to it. -/
theorem pollState_stopped (inv : client.LeaseInvAt console .idle) {grant : Grant}
    (held : client.granted = some grant) (expired : grant.expires ≤ client.rtc console)
    (synced : client.booted → client.leaseDisplaySecs = 0#32) : (client.pollState console).leaseDisplaySecs = 0#32 := by
  have grantInv := inv.grant grant held
  unfold pollState
  split
  · rename_i booted
    exact synced booted
  · by_cases zero : client.leaseExpiryRtc = 0#32
    · rw [dispInfo, if_pos zero]
      apply grantInv.spent
      rw [← grantInv.expiry, zero]
      rfl
    · rw [dispInfo_of_ne zero]
      apply BitVec.eq_of_toNat_eq
      have secs := toNat_resyncSecs client inv.rtc
      rw [grantInv.expiry] at secs
      exact secs.trans (Nat.sub_eq_zero_of_le (grantInv.keptUntil.trans expired))

theorem poll_right (idle : client.pc = .idle) (inv : client.LeaseInv console)
    (synced : ∀ grant, client.granted = some grant → grant.expires ≤ client.rtc console →
      client.booted → client.leaseDisplaySecs = 0#32) :
    client.LeaseRight console .poll (client.dhcpPoll console) := by
  rw [LeaseInv, idle] at inv
  obtain ⟨stateInv, granted, address, now⟩ := pollState_spec inv
  change client.LeaseRight console .poll ((client.pollState console).pollRenewal console)
  have asks (grant : Grant) (held : client.granted = some grant) (expired : grant.expires ≤ client.rtc console) :
      ((client.pollState console).pollRenewal console).pc ≠ .idle :=
    pollRenewal_asks stateInv (granted.trans held) (pollState_stopped inv held expired (synced grant held expired))
  by_cases needs : (client.pollState console).NeedsRenewal
  · rw [pollRenewal, if_pos needs] at asks ⊢
    constructor
    · intro _ _ grant held
      obtain ⟨-, -, -, due⟩ := needsRenewal_grant stateInv needs (granted.trans held)
      exact now ▸ due
    · exact fun _ discovering => discovering.elim
    · exact fun grant held _ => ⟨grant, granted.trans held, .inl ⟨rfl, rfl, address⟩⟩
    · exact fun _ => asks
    · exact fun loops => DhcpEvent.noConfusion loops
  · rw [pollRenewal, if_neg needs] at asks ⊢
    obtain ⟨-, granted', address', now', noRenewal, -, refused⟩ := pollDiscovery_spec stateInv
    constructor
    · exact fun _ renewing => absurd renewing noRenewal
    · intro _ discovering grant held
      rw [now']
      exact .inr (refused discovering grant (granted'.symm.trans held))
    · exact fun grant held _ => ⟨grant, granted'.trans (granted.trans held), .inl ⟨rfl, rfl, address'.trans address⟩⟩
    · exact fun _ => asks
    · exact fun loops => DhcpEvent.noConfusion loops

/-- The address stays in use until its lease is over, or a fresh one is. -/
def KeptOver (console : DhcpConsole) (client next : DhcpClient) : Prop :=
  ∀ grant, client.granted = some grant → client.rtc console < grant.expires →
    ∃ after, next.granted = some after ∧
      ((after.rtc = grant.rtc ∧ after.leaseTime = grant.leaseTime ∧ next.ourIp = client.ourIp) ∨
        after.rtc = client.rtc console)

/-- What a discovery comes to behind a wait. -/
structure DiscoveryGoesOn (console : DhcpConsole) (client next : DhcpClient) : Prop where
  inv : next.LeaseInv console
  noRenewal : ¬ next.pc.Renewing
  kept : client.KeptOver console next

theorem pollDiscovered_dropped (tick : client.lastDisplayTick ≤ client.ticks) (inRange : client.rtc console < 2 ^ 32)
    (expired : ∀ grant, client.granted = some grant → grant.expires ≤ client.rtc console)
    (nest : client.dhcpNestCounterMaxed = true) (result : ℤ) :
    client.DiscoveryGoesOn console (client.pollDiscovered console result) := by
  rw [pollDiscovered, if_pos (.inr nest)]
  refine ⟨⟨tick, inRange, rfl, absurd rfl, fun grant held => ?_⟩, id, fun grant held before => ?_⟩
  · cases held
  · exact absurd (expired grant held) (Nat.not_le.mpr before)

/-- A discovery that gives up leaves no address. -/
theorem dhcpGoDone_dropped (tick : client.lastDisplayTick ≤ client.ticks) (inRange : client.rtc console < 2 ^ 32)
    (expired : ∀ grant, client.granted = some grant → grant.expires ≤ client.rtc console)
    (nest : client.dhcpNestCounterMaxed = true) :
    client.DiscoveryGoesOn console (resumeGo console client.dhcpGoDone) := by
  have gone (next : DhcpClient) (result : ℤ) (same : next.leaseState.2.2 = client.leaseState.2.2)
      (granted : next.granted = client.granted) :
      client.DiscoveryGoesOn console (next.pollDiscovered console result) := by
    simp only [leaseState, Prod.mk.injEq] at same
    obtain ⟨-, -, last, ticks, epoch, maxed⟩ := same
    have now : next.rtc console = client.rtc console := by
      rw [rtc, rtc, rtcAt, rtcAt, ticks, epoch]
    have dropped : next.DiscoveryGoesOn console (next.pollDiscovered console result) := by
      apply pollDiscovered_dropped
      · rw [last, ticks]
        exact tick
      · rw [now]
        exact inRange
      · rw [now, granted]
        exact expired
      · exact maxed.trans nest
    exact ⟨dropped.inv, dropped.noRenewal, fun grant held before => absurd (expired grant held) (Nat.not_le.mpr before)⟩
  unfold dhcpGoDone dhcpGoResult
  split_ifs <;> exact gone _ _ rfl rfl

/-- A discovery with an acknowledgement ends in a fresh lease. -/
theorem dhcpGoDone_granted {pc : DhcpPc} (inv : client.LeaseInvAt console pc) (waits : pc ≠ .idle)
    (acked : client.dhcpAcked = true) (fits : client.GrantFits console) :
    client.DiscoveryGoesOn console (resumeGo console client.dhcpGoDone) := by
  unfold dhcpGoDone dhcpGoResult
  rw [if_pos acked]
  change client.DiscoveryGoesOn console (pollDiscovered console _ 0)
  rw [pollDiscovered, if_neg (not_or.mpr ⟨by decide, fun maxed => Bool.false_ne_true (inv.nest.symm.trans maxed)⟩)]
  refine ⟨?_, id, fun grant held before => ⟨_, rfl, .inr rfl⟩⟩
  exact freshLease_inv inv.rtc inv.nest (inv.renews waits) fits.positive fits.expires fits.address

/-- The head of the loop of `dhcp_go` ends in a lease, gives up, or waits for an offer. -/
theorem dhcpGoLoop_goesOn {pc : DhcpPc} (inv : client.LeaseInvAt console pc) (waits : pc.Discovering)
    (fits : client.dhcpAcked = true → client.GrantFits console)
    (expired : client.dhcpAcked = false → dhcpMaxAttempts ≤ client.dhcpAttempts →
      ∀ grant, client.granted = some grant → grant.expires ≤ client.rtc console) (nakCount : ℕ) :
    client.DiscoveryGoesOn console (resumeGo console (client.dhcpGoLoop console nakCount)) := by
  have away : pc ≠ .idle := by
    rintro rfl
    exact waits
  unfold dhcpGoLoop
  split
  · rename_i acked
    exact dhcpGoDone_granted inv away acked (fits acked)
  · rename_i unacked
    split
    · rename_i last
      have gone : DiscoveryGoesOn console
          { client with dhcpAttempts := client.dhcpAttempts + 1, dhcpNestCounterMaxed := true } _ :=
        dhcpGoDone_dropped inv.tick inv.rtc (expired (Bool.eq_false_iff.mpr unacked) (Nat.le_of_lt_succ last)) rfl
      exact ⟨gone.inv, gone.noRenewal, gone.kept⟩
    · refine ⟨inv.move rfl (fun _ => inv.renews away) fun grant held grantInv => ?_, id,
        fun grant held before => ⟨grant, held, .inl ⟨rfl, rfl, rfl⟩⟩⟩
      exact ⟨grantInv.1, grantInv.2, grantInv.3, grantInv.4, grantInv.5, grantInv.6, grantInv.7, by
        have phase := grantInv.phase
        cases pc with
        | idle | renewWait => exact waits.elim
        | offerWait | ackWait => exact phase⟩

theorem toNat_nakRemaining {saved : Word} (fits : saved.toNat * 3 + 4 < 2 ^ 32) :
    (nakRemaining saved).toNat = (saved.toNat * 3 + 4) / 8 := by
  have product : (saved * 3#32).toNat = saved.toNat * 3 := by
    rw [BitVec.toNat_mul]
    exact Nat.mod_eq_of_lt (by simp only [BitVec.toNat_ofNat]; omega)
  have sum : (saved * 3#32 + 4#32).toNat = saved.toNat * 3 + 4 := by
    rw [BitVec.toNat_add, product]
    exact Nat.mod_eq_of_lt fits
  rw [nakRemaining, BitVec.toNat_udiv, sum]
  rfl

/-- A threshold that has been backed off is below what is left of the lease. -/
theorem toNat_backedOffThreshold_le {secs : Word} (left : secs ≠ 0#32) :
    (backedOffThreshold secs).toNat ≤ secs.toNat := by
  unfold backedOffThreshold
  split
  · have positive : (1#32).toNat ≤ secs.toNat := BitVec.toNat_pos_of_ne_zero left
    rw [BitVec.toNat_sub_of_le (BitVec.le_def.mpr positive)]
    exact Nat.sub_le _ _
  · rename_i below
    rw [BitVec.le_def] at below
    exact (Nat.not_le.mp below).le

section Renewal

variable {request : DhcpRequest} {saved : Word}

theorem renewalRefused_inv (inv : client.LeaseInvAt console (.renewWait request saved))
    (fits : ∀ grant, client.granted = some grant →
      grant.leaseTime.toNat * 3 + 4 < 2 ^ 32 ∧ client.rtc console + grant.nakMargin ≤ grant.expires) :
    (client.renewalRefused console saved).LeaseInvAt console .idle := by
  refine ⟨Nat.le_refl _, inv.rtc, inv.nest, absurd rfl, fun after held => ?_⟩
  obtain ⟨grant, granted, rfl⟩ := Option.map_eq_some_iff.mp held
  have grantInv := inv.grant grant granted
  obtain ⟨-, rfl, -⟩ := grantInv.phase
  obtain ⟨product, early⟩ := fits grant granted
  have margin : (nakRemaining grant.leaseTime).toNat = grant.nakMargin := toNat_nakRemaining product
  have limit := grantInv.expires
  refine ⟨grantInv.positive, grantInv.expires, early, ?_, ?_, ?_, grantInv.address, rfl⟩
  · change (client.getRtc console + nakRemaining grant.leaseTime).toNat = client.rtc console + grant.nakMargin
    rw [BitVec.toNat_add, toNat_getRtc inv.rtc, margin]
    exact Nat.mod_eq_of_lt (by omega)
  · change client.rtc console + grant.nakMargin ≤ (nakRemaining grant.leaseTime).toNat + client.rtc console
    rw [margin, Nat.add_comm]
  · intro spent
    apply BitVec.eq_of_toNat_eq
    exact margin.trans (Nat.add_eq_zero_iff.mp spent).2

/-- After a renewal that got no answer the lease goes on, or the address is dropped. -/
theorem renewalLost_inv (inv : client.LeaseInvAt console (.renewWait request saved)) :
    (client.renewalLost saved).LeaseInvAt console .idle := by
  unfold renewalLost
  split
  · exact ⟨inv.tick, inv.rtc, inv.nest, absurd rfl, fun grant held => by cases held⟩
  · rename_i left
    refine ⟨Nat.le_refl _, inv.rtc, inv.nest, absurd rfl, fun grant held => ?_⟩
    have grantInv := inv.grant grant held
    obtain ⟨nak, same, half⟩ := grantInv.phase
    refine ⟨grantInv.1, grantInv.2, grantInv.3, grantInv.4, ?_, grantInv.6, grantInv.7, ?_⟩
    · exact grantInv.ahead.trans (Nat.add_le_add_left inv.rtcAt_le _)
    · simp only [nak]
      exact ⟨inv.renews DhcpPc.noConfusion, same, (toNat_backedOffThreshold_le left).trans half⟩

theorem pollRenewed_of_nak (nak : client.dhcpRenewalNak = true) : client.pollRenewed console saved =
    renewalRefused console { client with dhcpRenewal := false } saved := by
  rw [pollRenewed, dhcpRenewed, if_pos nak]
  rfl

theorem pollRenewed_of_ack (unrefused : client.dhcpRenewalNak = false) (acked : client.dhcpAcked = true) :
    client.pollRenewed console saved =
      freshLease console { client with dhcpRenewal := false, ourIp := client.dhcpofferIp } := by
  rw [pollRenewed, dhcpRenewed, if_neg (Bool.not_eq_true _ ▸ unrefused), if_pos acked]
  rfl

theorem pollRenewed_of_none (unrefused : client.dhcpRenewalNak = false) (unanswered : client.dhcpAcked = false) :
    client.pollRenewed console saved = renewalLost { client with dhcpRenewal := false } saved := by
  rw [pollRenewed, dhcpRenewed, if_neg (Bool.not_eq_true _ ▸ unrefused), if_neg (Bool.not_eq_true _ ▸ unanswered)]
  rfl

/-- What a renewal comes to, behind the wait. -/
theorem renewed_right (pc : client.pc = .renewWait request saved) (inv : client.LeaseInv console)
    (fits : client.LoopFits console) :
    client.LeaseRight console .loopReturns ((client.pollRenewed console saved).pollDiscovery console) ∧
      ((client.pollRenewed console saved).pollDiscovery console).LeaseInv console := by
  rw [LeaseInv, pc] at inv
  have renewing : client.pc.Renewing := by
    rw [pc]
    trivial
  have settled (middle : DhcpClient) (middleInv : middle.LeaseInvAt console .idle)
      (now : middle.rtc console = client.rtc console) (kept : client.KeptOver console middle)
      (ended : ∀ grant, client.granted = some grant → grant.expires ≤ client.rtc console →
        middle.granted = none ∨ middle.NeedsDiscovery ∨
          ∃ after, middle.granted = some after ∧ after.rtc = client.rtc console) :
      client.LeaseRight console .loopReturns (middle.pollDiscovery console) ∧
        (middle.pollDiscovery console).LeaseInv console := by
    obtain ⟨next, granted, address, now', noRenewal, asks, refused⟩ := pollDiscovery_spec middleInv
    refine ⟨⟨?_, ?_, ?_, ?_, ?_⟩, next⟩
    · exact fun _ renews => absurd renews noRenewal
    · intro _ discovering grant held
      rw [now']
      exact .inr (refused discovering grant (granted.symm.trans held))
    · intro grant held before
      obtain ⟨after, holds, same⟩ := kept grant held before
      rw [granted, address]
      exact ⟨after, holds, same⟩
    · exact fun polls => DhcpEvent.noConfusion polls
    · intro _ _ grant held expired
      rw [granted]
      exact (ended grant held expired).imp_right fun rest => rest.imp_left asks
  have away : client.pc ≠ .idle := by
    rw [pc]
    exact DhcpPc.noConfusion
  have noGiveUp : ¬ client.GivesUp := by
    rw [GivesUp, pc]
    exact id
  obtain nak | unrefused := Bool.eq_false_or_eq_true client.dhcpRenewalNak
  · have refused := fits.refused renewing nak
    rw [pollRenewed_of_nak nak]
    apply settled
    · exact renewalRefused_inv (inv.frame rfl rfl rfl fun _ => rfl) refused
    · rfl
    · intro grant held before
      refine ⟨{ grant with nakRtc := some (client.rtc console) }, ?_, .inl ⟨rfl, rfl, rfl⟩⟩
      exact Option.map_eq_some_iff.mpr ⟨grant, held, rfl⟩
    · intro grant held expired
      obtain ⟨product, early⟩ := refused grant held
      have same : saved = grant.leaseTime := (inv.grant grant held).phase.2.1
      refine .inr (.inl (.inr ⟨rfl, BitVec.eq_of_toNat_eq ?_⟩))
      change (nakRemaining saved).toNat = 0
      rw [same, toNat_nakRemaining product]
      exact Nat.le_zero.mp (Nat.le_of_add_le_add_left (early.trans expired))
  obtain acked | unanswered := Bool.eq_false_or_eq_true client.dhcpAcked
  · have granted := fits.granted away acked (fun refused => Bool.false_ne_true (unrefused.symm.trans refused.2)) noGiveUp
    rw [pollRenewed_of_ack unrefused acked]
    apply settled
    · exact freshLease_inv inv.rtc inv.nest (inv.renews DhcpPc.noConfusion) granted.positive granted.expires
        granted.address
    · rfl
    · exact fun grant held before => ⟨_, rfl, .inr rfl⟩
    · exact fun grant held expired => .inr (.inr ⟨_, rfl, rfl⟩)
  · have lost := fits.lost renewing unrefused unanswered
    rw [pollRenewed_of_none unrefused unanswered]
    have middleInv : LeaseInvAt console { client with dhcpRenewal := false } (.renewWait request saved) :=
      inv.frame rfl rfl rfl fun _ => rfl
    apply settled
    · exact renewalLost_inv middleInv
    · unfold renewalLost
      split <;> rfl
    · intro grant held before
      have grantInv := inv.grant grant held
      have left : client.leaseDisplaySecs ≠ 0#32 := by
        intro stopped
        have ahead := grantInv.ahead
        rw [stopped, Grant.keptUntil, grantInv.phase.1, BitVec.toNat_zero, Nat.zero_add] at ahead
        exact absurd (ahead.trans inv.rtcAt_le) (Nat.not_le.mpr before)
      rw [renewalLost, if_neg left]
      exact ⟨grant, held, .inl ⟨rfl, rfl, rfl⟩⟩
    · intro grant held expired
      rw [renewalLost, if_pos (lost grant held expired)]
      exact .inl rfl

end Renewal

/-- A discovery that goes on keeps to the lease. -/
theorem DiscoveryGoesOn.right {next : DhcpClient} (waits : client.pc.Discovering)
    (gone : client.DiscoveryGoesOn console next) :
    client.LeaseRight console .loopReturns next ∧ next.LeaseInv console := by
  refine ⟨⟨fun _ renews => absurd renews gone.noRenewal, fun away => absurd waits away, gone.kept,
    fun polls => DhcpEvent.noConfusion polls, fun _ renews => ?_⟩, gone.inv⟩
  cases pc : client.pc with
  | idle | renewWait =>
    rw [pc] at waits
    exact waits.elim
  | offerWait | ackWait =>
    rw [pc] at renews
    exact renews.elim

/-- A wait of a discovery is not one of a renewal. -/
theorem LoopFits.grantFits (fits : client.LoopFits console) (waits : client.pc.Discovering)
    (acked : client.dhcpAcked = true) (goesOn : ¬ client.GivesUp) : client.GrantFits console := by
  apply fits.granted ?_ acked ?_ goesOn
  · intro idle
    rw [idle] at waits
    exact waits
  · rintro ⟨renews, -⟩
    cases pc : client.pc with
    | idle | renewWait =>
      rw [pc] at waits
      exact waits
    | offerWait | ackWait =>
      rw [pc] at renews
      exact renews

theorem dhcpGoOffered_goesOn {request : DhcpRequest} {nakCount : ℕ} (pc : client.pc = .offerWait request nakCount)
    (inv : client.LeaseInv console) (fits : client.LoopFits console) :
    client.DiscoveryGoesOn console (resumeGo console (client.dhcpGoOffered console nakCount)) := by
  have waits : client.pc.Discovering := by
    rw [pc]
    trivial
  have givesUp : client.GivesUp ↔
      client.timeoutLoop < 0 ∧ client.dhcpAcked = false ∧ dhcpMaxAttempts ≤ client.dhcpAttempts := by
    rw [GivesUp, pc]
  unfold dhcpGoOffered
  split
  · rename_i late
    apply dhcpGoLoop_goesOn inv waits
    · exact fun acked => fits.grantFits waits acked fun gone =>
        Bool.false_ne_true ((givesUp.mp gone).2.1.symm.trans acked)
    · exact fun unacked last => fits.givesUp (givesUp.mpr ⟨late, unacked, last⟩)
  · rw [LeaseInv, pc] at inv
    refine ⟨inv.move rfl (fun _ => inv.renews DhcpPc.noConfusion) fun grant held grantInv => ?_, id,
      fun grant held before => ⟨grant, held, .inl ⟨rfl, rfl, rfl⟩⟩⟩
    exact ⟨grantInv.1, grantInv.2, grantInv.3, grantInv.4, grantInv.5, grantInv.6, grantInv.7, grantInv.phase⟩

theorem dhcpGoAnswered_goesOn {request : DhcpRequest} {nakCount : ℕ} (pc : client.pc = .ackWait request nakCount)
    (inv : client.LeaseInv console) (fits : client.LoopFits console) :
    client.DiscoveryGoesOn console (resumeGo console (client.dhcpGoAnswered console nakCount)) := by
  have waits : client.pc.Discovering := by
    rw [pc]
    trivial
  have givesUp : client.GivesUp ↔
      (0 ≤ client.timeoutLoop ∧ client.dhcpNakReceived ∧ dhcpMaxNaks ≤ nakCount + 1) ∨
        (client.dhcpAcked = false ∧ dhcpMaxAttempts ≤ client.dhcpAttempts) := by
    rw [GivesUp, pc]
  have unacked_of_gone (gone : client.GivesUp)
      (few : ¬ (0 ≤ client.timeoutLoop ∧ client.dhcpNakReceived ∧ dhcpMaxNaks ≤ nakCount + 1)) :
      ¬ client.dhcpAcked = true := fun acked =>
    Bool.false_ne_true (((givesUp.mp gone).resolve_left few).1.symm.trans acked)
  have expired (unacked : client.dhcpAcked = false) (last : dhcpMaxAttempts ≤ client.dhcpAttempts) :=
    fits.givesUp (givesUp.mpr (.inr ⟨unacked, last⟩))
  unfold dhcpGoAnswered
  split
  · rename_i late
    apply dhcpGoLoop_goesOn inv waits _ expired
    exact fun acked => fits.grantFits waits acked fun gone =>
      unacked_of_gone gone (fun many => absurd many.1 (not_le.mpr late)) acked
  · rename_i onTime
    split
    · rename_i refused
      split
      · rename_i many
        have gone : DiscoveryGoesOn console
            { client with dhcpNakReceived := false, dhcpNestCounterMaxed := true } _ :=
          dhcpGoDone_dropped inv.tick inv.rtc
            (fits.givesUp (givesUp.mpr (.inl ⟨not_lt.mp onTime, refused, many⟩))) rfl
        exact ⟨gone.inv, gone.noRenewal, gone.kept⟩
      · rename_i few
        have cleared : LeaseInvAt console { client with dhcpNakReceived := false } client.pc :=
          inv.frame rfl rfl rfl fun _ => rfl
        have gone := dhcpGoLoop_goesOn cleared waits
          (fun acked => by
            have granted := fits.grantFits waits acked fun gone =>
              unacked_of_gone gone (fun many => few many.2.2) acked
            exact ⟨granted.positive, granted.expires, granted.address⟩)
          expired (nakCount + 1)
        exact ⟨gone.inv, gone.noRenewal, gone.kept⟩
    · rename_i unrefused
      apply dhcpGoLoop_goesOn inv waits _ expired
      exact fun acked => fits.grantFits waits acked fun gone =>
        unacked_of_gone gone (fun many => unrefused many.2.1) acked

theorem resume_right (inv : client.LeaseInv console) (fits : client.LoopFits console) :
    client.LeaseRight console .loopReturns (client.resume console) ∧ (client.resume console).LeaseInv console := by
  unfold resume
  split
  · rename_i pc
    refine ⟨⟨fun _ renews => ?_, fun _ discovers => ?_, fun grant held _ => ⟨grant, held, .inl ⟨rfl, rfl, rfl⟩⟩,
      fun polls => DhcpEvent.noConfusion polls, fun _ renews => ?_⟩, inv⟩
    · rw [pc] at renews
      exact renews.elim
    · rw [pc] at discovers
      exact discovers.elim
    · rw [pc] at renews
      exact renews.elim
  · rename_i request nakCount pc
    apply DiscoveryGoesOn.right _ (dhcpGoOffered_goesOn pc inv fits)
    rw [pc]
    trivial
  · rename_i request nakCount pc
    apply DiscoveryGoesOn.right _ (dhcpGoAnswered_goesOn pc inv fits)
    rw [pc]
    trivial
  · rename_i request saved pc
    exact renewed_right pc inv fits

end DhcpClient

section Session

variable (console : DhcpConsole)

/-- The step keeps to the lease. -/
def LeaseStepRight (client : DhcpClient) (event : DhcpEvent) : Prop :=
  ∀ next, (dhcpMachine console).step client event = some next → client.LeaseRight console event next

/-- The step does no harm to the lease: outside the DHCP client no acknowledgement with another lease time is
taken, a wait ends without harm, and at a poll after the lease nothing is left of the countdown, unless a redraw
sees to it. -/
def LeaseStepFits (client : DhcpClient) : DhcpEvent → Prop
  | .reply reply => client.pc = .idle → reply.op = dhcpOpBootreply → client.Takes console reply →
      reply.getMessageType = some dhcpMsgAck → reply.get32bit dhcpOptionIpLeaseTime = client.dhcpLeaseTime
  | .poll => ∀ grant, client.granted = some grant → grant.expires ≤ client.rtc console → client.booted →
      client.leaseDisplaySecs = 0#32
  | .loopReturns => client.LoopFits console
  | _ => True

/-- What is asked of the value there may be. -/
local instance decidableForallSome {α : Type*} (value : Option α) (p : α → Prop) [DecidablePred p] :
    Decidable (∀ held, value = some held → p held) :=
  match value with
  | none => isTrue fun _ same => nomatch same
  | some held => decidable_of_iff (p held)
    ⟨fun holds _ same => Option.some.inj same ▸ holds, fun all => all held rfl⟩

instance (client : DhcpClient) : Decidable (client.GrantFits console) :=
  decidable_of_iff (client.dhcpLeaseTime ≠ 0#32 ∧ client.rtc console + client.dhcpLeaseTime.toNat < 2 ^ 32 ∧
      client.dhcpofferIp &&& 0xff000000#32 ≠ 0#32)
    ⟨fun all => ⟨all.1, all.2.1, all.2.2⟩, fun fits => ⟨fits.positive, fits.expires, fits.address⟩⟩

instance (client : DhcpClient) : Decidable client.GivesUp :=
  match pc : client.pc with
  | .idle | .renewWait _ _ => isFalse (by simp only [DhcpClient.GivesUp, pc, not_false_eq_true])
  | .offerWait _ _ => decidable_of_iff
      (client.timeoutLoop < 0 ∧ client.dhcpAcked = false ∧ dhcpMaxAttempts ≤ client.dhcpAttempts)
      (by simp only [DhcpClient.GivesUp, pc])
  | .ackWait _ nakCount => decidable_of_iff
      ((0 ≤ client.timeoutLoop ∧ client.dhcpNakReceived ∧ dhcpMaxNaks ≤ nakCount + 1) ∨
        (client.dhcpAcked = false ∧ dhcpMaxAttempts ≤ client.dhcpAttempts))
      (by simp only [DhcpClient.GivesUp, pc])

instance (client : DhcpClient) : Decidable (client.LoopFits console) :=
  have parts : (_ ∧ _) ∧ (_ ∧ _) ↔ client.LoopFits console :=
    ⟨fun all => ⟨all.1.1, all.1.2, all.2.1, all.2.2⟩, fun fits => ⟨⟨fits.granted, fits.refused⟩, fits.lost, fits.givesUp⟩⟩
  @decidable_of_iff _ _ parts (@instDecidableAnd _ _ inferInstance inferInstance)

instance (client : DhcpClient) : (event : DhcpEvent) → Decidable (LeaseStepFits console client event)
  | .reply _ => inferInstanceAs (Decidable (_ → _ → _ → _ → _))
  | .poll => inferInstanceAs (Decidable (∀ _, _ = some _ → _ → _ → _))
  | .loopReturns => inferInstanceAs (Decidable (DhcpClient.LoopFits _ _))
  | .advance _ | .setRtc _ | .setEscape _ | .timeout | .linkUp | .programReturns | .dispInfo | .tick => isTrue trivial

variable {console}

/-- A step that is no poll and ends no wait keeps to the lease, if it leaves the phase, the grant and the address. -/
theorem DhcpClient.leaseRight_of_same {client next : DhcpClient} {event : DhcpEvent} (pc : next.pc = client.pc)
    (granted : next.granted = client.granted) (address : next.ourIp = client.ourIp) (noPoll : event ≠ .poll)
    (noReturn : event ≠ .loopReturns) : client.LeaseRight console event next := by
  refine ⟨fun idle renews => ?_, fun away discovers => ?_, fun grant held _ => ?_, fun polls => absurd polls noPoll,
    fun loops => absurd loops noReturn⟩
  · rw [pc, idle] at renews
    exact renews.elim
  · rw [pc] at discovers
    exact absurd discovers away
  · exact ⟨grant, granted.trans held, .inl ⟨rfl, rfl, address⟩⟩

/-- Time that passes brings the countdown no further ahead. -/
theorem DhcpClient.LeaseInv.later {client : DhcpClient} (inv : client.LeaseInv console) {ticks rtcEpoch : ℕ}
    (onward : client.ticks ≤ ticks) (forward : client.rtcEpoch ≤ rtcEpoch)
    (inRange : DhcpClient.rtc console { client with ticks, rtcEpoch } < 2 ^ 32) :
    DhcpClient.LeaseInv console { client with ticks, rtcEpoch } := by
  refine ⟨(DhcpClient.LeaseInvAt.tick inv).trans onward, inRange, inv.nest, inv.renews, fun grant held => ?_⟩
  have grantInv := inv.grant grant held
  refine ⟨grantInv.1, grantInv.2, grantInv.3, grantInv.4, grantInv.ahead.trans ?_, grantInv.6, grantInv.7, grantInv.8⟩
  exact Nat.add_le_add_left (Nat.div_le_div_right (Nat.add_le_add_right forward _)) _

/-- A reply leaves everything but the client's own variables alone. -/
theorem DhcpClient.processUdp_frame (client : DhcpClient) (console : DhcpConsole) (reply : DhcpReply) :
    (client.processUdp console reply).leaseState = client.leaseState ∧
      (client.processUdp console reply).dontRenew = client.dontRenew ∧
      (client.processUdp console reply).renewThreshold = client.renewThreshold := by
  unfold DhcpClient.processUdp DhcpClient.handleDhcpReply
  cases reply.getMessageType with
  | none => split_ifs <;> exact ⟨rfl, rfl, rfl⟩
  | some msgType => dsimp only; split_ifs <;> exact ⟨rfl, rfl, rfl⟩

/-- Only an acknowledgement stores a lease time. -/
theorem DhcpClient.processUdp_leaseTime {client : DhcpClient} {reply : DhcpReply}
    (known : reply.op = dhcpOpBootreply → client.Takes console reply →
      reply.getMessageType = some dhcpMsgAck → reply.get32bit dhcpOptionIpLeaseTime = client.dhcpLeaseTime) :
    (client.processUdp console reply).dhcpLeaseTime = client.dhcpLeaseTime := by
  unfold DhcpClient.processUdp
  split
  · rename_i isReply
    have handled : (client.handleDhcpReply console reply).1.dhcpLeaseTime = client.dhcpLeaseTime := by
      by_cases takes : client.Takes console reply
      · have known := known isReply takes
        obtain offer | ⟨ack, same, address⟩ | nak := takes
        · rw [DhcpClient.handleDhcpReply_of_offer offer]
        · rw [DhcpClient.handleDhcpReply_of_ack ack same address]
          exact known ack
        · rw [DhcpClient.handleDhcpReply_of_nak nak]
          split <;> rfl
      · rw [DhcpClient.handleDhcpReply_of_not_takes takes]
    split <;> exact handled
  · rfl

/-- A step that fits keeps to the lease, and what is stored keeps agreeing with it. -/
theorem leaseInv_step (client : DhcpClient) (event : DhcpEvent) (next : DhcpClient) (inv : client.LeaseInv console)
    (fits : LeaseStepFits console client event) (step : (dhcpMachine console).step client event = some next) :
    client.LeaseRight console event next ∧ next.LeaseInv console := by
  cases event with
  | advance ticks =>
    obtain ⟨inRange, taken⟩ := Option.ite_none_right_eq_some.mp step
    cases taken
    exact ⟨DhcpClient.leaseRight_of_same rfl rfl rfl DhcpEvent.noConfusion DhcpEvent.noConfusion,
      inv.later (Nat.le_add_right _ _) (Nat.le_refl _) inRange⟩
  | setRtc forward =>
    obtain ⟨inRange, taken⟩ := Option.ite_none_right_eq_some.mp step
    cases taken
    exact ⟨DhcpClient.leaseRight_of_same rfl rfl rfl DhcpEvent.noConfusion DhcpEvent.noConfusion,
      inv.later (Nat.le_refl _) (Nat.le_add_right _ _) inRange⟩
  | reply reply =>
    cases step
    obtain ⟨same, renew, threshold⟩ := client.processUdp_frame console reply
    have parts := same
    simp only [DhcpClient.leaseState, Prod.mk.injEq] at parts
    refine ⟨DhcpClient.leaseRight_of_same DhcpClient.processUdp_pc parts.1 parts.2.1 DhcpEvent.noConfusion
      DhcpEvent.noConfusion, ?_⟩
    rw [DhcpClient.LeaseInv, DhcpClient.processUdp_pc]
    exact DhcpClient.LeaseInvAt.frame inv same renew threshold fun idle =>
      DhcpClient.processUdp_leaseTime (fits idle)
  | setEscape value | programReturns =>
    cases step
    exact ⟨DhcpClient.leaseRight_of_same rfl rfl rfl DhcpEvent.noConfusion DhcpEvent.noConfusion,
      DhcpClient.LeaseInvAt.frame inv rfl rfl rfl fun _ => rfl⟩
  | timeout | linkUp =>
    obtain ⟨-, taken⟩ := Option.ite_none_right_eq_some.mp step
    cases taken
    exact ⟨DhcpClient.leaseRight_of_same rfl rfl rfl DhcpEvent.noConfusion DhcpEvent.noConfusion,
      DhcpClient.LeaseInvAt.frame inv rfl rfl rfl fun _ => rfl⟩
  | dispInfo =>
    cases step
    obtain ⟨pc, granted, address, -⟩ := DhcpClient.dispInfo_frame console client
    refine ⟨DhcpClient.leaseRight_of_same pc granted address DhcpEvent.noConfusion DhcpEvent.noConfusion, ?_⟩
    rw [DhcpClient.LeaseInv, pc]
    exact DhcpClient.LeaseInvAt.dispInfo inv
  | tick =>
    obtain ⟨idle, taken⟩ := Option.ite_none_right_eq_some.mp step
    cases taken
    obtain ⟨pc, granted, address⟩ := DhcpClient.dhcpTick_frame console client
    refine ⟨DhcpClient.leaseRight_of_same pc granted address DhcpEvent.noConfusion DhcpEvent.noConfusion, ?_⟩
    rw [DhcpClient.LeaseInv, idle] at inv
    rw [DhcpClient.LeaseInv, pc, idle]
    exact inv.dhcpTick
  | poll =>
    obtain ⟨idle, taken⟩ := Option.ite_none_right_eq_some.mp step
    cases taken
    refine ⟨DhcpClient.poll_right idle inv fits, ?_⟩
    rw [DhcpClient.LeaseInv, idle] at inv
    exact DhcpClient.pollRenewal_leaseInv (DhcpClient.pollState_spec inv).1
  | loopReturns =>
    obtain ⟨-, taken⟩ := Option.ite_none_right_eq_some.mp step
    cases taken
    have left : DhcpClient.LeaseInv console { client with escapeLoop := false } :=
      DhcpClient.LeaseInvAt.frame inv rfl rfl rfl fun _ => rfl
    obtain ⟨right, after⟩ := DhcpClient.resume_right left
      ⟨fun away acked unrefused goesOn => ⟨(fits.granted away acked unrefused goesOn).positive,
        (fits.granted away acked unrefused goesOn).expires, (fits.granted away acked unrefused goesOn).address⟩,
        fits.refused, fits.lost, fits.givesUp⟩
    exact ⟨⟨right.renewal, right.discovery, right.kept, right.polled, right.renewed⟩, after⟩

/-- No lease is held, and the client is not running. -/
structure DhcpClient.Unleased (console : DhcpConsole) (client : DhcpClient) : Prop where
  idle : client.pc = .idle
  granted : client.granted = none
  tick : client.lastDisplayTick ≤ client.ticks
  rtc : client.rtc console < 2 ^ 32
  nest : client.dhcpNestCounterMaxed = false

theorem DhcpClient.Unleased.leaseInv {client : DhcpClient} (unleased : client.Unleased console) :
    client.LeaseInv console :=
  ⟨unleased.tick, unleased.rtc, unleased.nest, fun away => absurd unleased.idle away,
    fun grant held => absurd (unleased.granted.symm.trans held) (Option.some_ne_none grant).symm⟩

/-- From a console without a lease, every step of a run keeps to the lease if all of them do it no harm. -/
theorem leases_kept_of_fits (console : DhcpConsole) (source : DhcpClient) (events : List DhcpEvent)
    (unleased : source.Unleased console) (fits : (dhcpMachine console).Along (LeaseStepFits console) source events) :
    (dhcpMachine console).Along (LeaseStepRight console) source events := by
  refine LabeledMachine.Along.imp ?_ ?_ unleased.leaseInv fits
  · exact fun client event next inv fits step => (leaseInv_step client event next inv fits step).2
  · exact fun client event inv fits next step => (leaseInv_step client event next inv fits step).1

end Session

/-- The discovery of an address that is granted for a time. -/
def leasedSession (leaseTime : Word) : List DhcpEvent :=
  [.poll, .reply (.fromServer dhcpMsgOffer 0xdeadbeef gamecubeDhcp.mac leaseTime), .loopReturns,
    .reply (.fromServer dhcpMsgAck 0xdeadbeef gamecubeDhcp.mac leaseTime), .loopReturns]

/-- The first second of 2001 as the RTC tells it. -/
def newYear : DhcpClient := .powerOn (978307200 * 40500000)

theorem newYear_unleased : newYear.Unleased gamecubeDhcp := ⟨rfl, rfl, Nat.le_refl _, by decide +kernel, rfl⟩

/-- A lease of ten seconds runs out while nobody answers: it is polled, half of it passes, its renewal gets no
answer, and when the rest has passed the address is dropped. -/
def lapsingSession : List DhcpEvent :=
  leasedSession 10 ++ (List.replicate 5 [.advance 40500000, .tick]).flatten ++ [.poll, .setEscape true, .loopReturns] ++
    (List.replicate 5 [.advance 40500000, .tick]).flatten ++ [.poll, .setEscape true, .loopReturns]

theorem leases_kept_lapsing :
    (dhcpMachine gamecubeDhcp).Along (LeaseStepRight gamecubeDhcp) newYear lapsingSession :=
  leases_kept_of_fits gamecubeDhcp newYear lapsingSession newYear_unleased (by decide +kernel)

/-- The discovery of an address that is granted for ever, and a redraw. -/
def endlessSession : List DhcpEvent := leasedSession 0xffffffff ++ [.dispInfo]

theorem endlessSession_completes : ((dhcpMachine gamecubeDhcp).run? newYear endlessSession).isSome = true := by
  decide +kernel

/-- The console after that. -/
def endlessLease : DhcpClient := ((dhcpMachine gamecubeDhcp).run? newYear endlessSession).get endlessSession_completes

theorem endlessLease_polls : ((dhcpMachine gamecubeDhcp).step endlessLease .poll).isSome = true := by
  decide +kernel

/-- The end of an infinite lease wraps around: a redraw finds it over, and the next poll begins its renewal. -/
theorem leases_not_kept : ¬ ∀ (console : DhcpConsole) (source : DhcpClient) (events : List DhcpEvent),
    source.Unleased console → (dhcpMachine console).Along (LeaseStepRight console) source events := by
  intro right
  have along := right gamecubeDhcp newYear (endlessSession ++ [.poll]) newYear_unleased
  have run : (dhcpMachine gamecubeDhcp).run? newYear endlessSession = some endlessLease :=
    (Option.some_get endlessSession_completes).symm
  have due := (along.at_cut run _ (Option.some_get endlessLease_polls).symm).renewal (by decide +kernel)
    (by decide +kernel) { rtc := 978307200, leaseTime := 0xffffffff, nakRtc := none } (by decide +kernel)
  revert due
  decide +kernel

end KosTool.Client
