import KosTool.Model.FirmwareIp

/-! # The address a patched loader comes up on

The loader accumulates decimal digits between the dots of the patched text, whatever the characters are. That is
the address of a dotted quad; of a host name, or of a quad with a port behind it, it is whatever the characters
add up to.
-/

namespace KosTool.Client

open ByteWord Host

/-- Characters as decimal digits, in a byte. -/
def decimal (digits : List Byte) (start : Byte) : Byte :=
  digits.foldl (fun value digit => value * 10 + (digit - 0x30)) start

/-- The address of four numbers between dots; what is not there is zero. -/
def dottedAddress (text : List Byte) : Word :=
  ofBe32 (decimal ((text.splitOn 0x2e).getD 0 []) 0) (decimal ((text.splitOn 0x2e).getD 1 []) 0)
    (decimal ((text.splitOn 0x2e).getD 2 []) 0) (decimal ((text.splitOn 0x2e).getD 3 []) 0)

/-- The loop reads the numbers between the dots into bytes from an index on. -/
theorem parseIp_eq {text : List Byte} (no_nul : (0 : Byte) ∉ text) (tail : List Byte) (i : ℕ) (ip : Buffer) :
    ∃ parsed, parseIp (text ++ 0 :: tail) i ip = some parsed ∧ (∀ j < i, parsed j = ip j) ∧
      ∀ j, parsed (i + j) = decimal ((text.splitOn 0x2e).getD j []) (ip (i + j)) := by
  induction text generalizing i ip with
  | nil =>
    refine ⟨ip, rfl, fun _ _ => rfl, fun j => ?_⟩
    cases j with
    | zero => rfl
    | succ j => rfl
  | cons s rest ih =>
    have notNul : s ≠ 0 := fun same => no_nul (same ▸ List.mem_cons_self)
    have restNoNul : (0 : Byte) ∉ rest := fun member => no_nul (List.mem_cons_of_mem s member)
    rw [List.cons_append, parseIp, if_neg notNul, List.splitOn_cons_eq_if_modifyHead]
    by_cases dot : s = 0x2e
    · obtain ⟨parsed, run, before, values⟩ := ih restNoNul (i + 1) ip
      rw [if_pos dot, if_pos (beq_iff_eq.mpr dot)]
      refine ⟨parsed, run, fun j below => before j (by omega), fun j => ?_⟩
      cases j with
      | zero => exact before i (Nat.lt_succ_self i)
      | succ j =>
        have value := values j
        rw [Nat.add_right_comm] at value
        exact value
    · obtain ⟨parsed, run, before, values⟩ := ih restNoNul i (Function.update ip i (ip i * 10 + (s - 0x30)))
      rw [if_neg dot, if_neg (mt beq_iff_eq.mp dot)]
      refine ⟨parsed, run, fun j below => ?_, fun j => ?_⟩
      · rw [before j below, Function.update_of_ne (Nat.ne_of_lt below)]
      · obtain ⟨first, others, parts⟩ := List.exists_cons_of_ne_nil (List.splitOn_ne_nil (0x2e : Byte) rest)
        rw [values, parts, List.modifyHead_cons]
        cases j with
        | zero =>
          rw [Nat.add_zero, Function.update_self]
          rfl
        | succ j =>
          rw [Function.update_of_ne (Nat.ne_of_gt (Nat.lt_add_of_pos_right (Nat.succ_pos j)))]
          rfl

/-- What a patched field holds: as much of the text as fits, and at least one zero. -/
theorem slice_patched (fwData : Buffer) (field : ℕ) (ipStr : CString) :
    ∃ tail, slice (storeAt (storeAt fwData field (List.replicate ipConfigIpLen 0)) field
      (strncpy ipStr (ipConfigIpLen - 1))) field ipConfigIpLen = ipStr.bytes.take (ipConfigIpLen - 1) ++ 0 :: tail := by
  have copied : (strncpy ipStr (ipConfigIpLen - 1)).length = 15 := by
    rw [strncpy, List.length_take, List.length_append, List.length_replicate, ipConfigIpLen]
    omega
  have whole : slice (storeAt (storeAt fwData field (List.replicate ipConfigIpLen 0)) field
      (strncpy ipStr (ipConfigIpLen - 1))) field ipConfigIpLen = strncpy ipStr (ipConfigIpLen - 1) ++ [0] := by
    apply List.ext_getElem
    · rw [length_slice, List.length_append, copied]
      rfl
    · intro i left right
      rw [length_slice, ipConfigIpLen] at left
      rw [getElem_slice, storeAt_add]
      by_cases inside : i < 15
      · rw [overlay_of_lt (by omega), List.getElem_append_left (by omega)]
      · obtain rfl : i = 15 := by omega
        rw [overlay_of_le (by omega), List.getElem_append_right (by omega), storeAt_add]
        simp only [copied]
        rfl
  rw [whole, strncpy, List.take_append, List.take_replicate, List.append_assoc, ← List.replicate_succ', List.replicate_succ]
  exact ⟨_, rfl⟩

/-- The loader reads the patched text as dotted decimal numbers. -/
theorem setIpFromString_patched (order : ByteOrder) (fwData : Buffer) (field : ℕ) (ipStr : CString) (memory : Buffer) :
    setIpFromString order (slice (storeAt (storeAt fwData field (List.replicate ipConfigIpLen 0)) field
      (strncpy ipStr (ipConfigIpLen - 1))) field ipConfigIpLen) (overlay [0, 0, 0, 0] memory) =
        some (dottedAddress (ipStr.bytes.take (ipConfigIpLen - 1))) := by
  obtain ⟨tail, text⟩ := slice_patched fwData field ipStr
  have no_nul : (0 : Byte) ∉ ipStr.bytes.take (ipConfigIpLen - 1) := fun member =>
    ipStr.no_nul (List.mem_of_mem_take member)
  obtain ⟨parsed, run, -, values⟩ := parseIp_eq no_nul tail 0 (overlay [0, 0, 0, 0] memory)
  have fresh : overlay [0, 0, 0, 0] memory 3 = 0 := rfl
  rw [setIpFromString, if_neg (not_not.mpr fresh), text, run, Option.map_some, ByteOrder.ntohl_load32]
  have first := values 0
  have second := values 1
  have third := values 2
  have fourth := values 3
  rw [Nat.zero_add] at first second third fourth
  rw [readBe32, first, second, third, fourth]
  rfl

/-- A number as it is usually written. -/
def decimalText (value : Byte) : List Byte :=
  if value < 10 then [0x30 + value]
  else if value < 100 then [0x30 + value / 10, 0x30 + value % 10]
  else [0x30 + value / 100, 0x30 + value / 10 % 10, 0x30 + value % 10]

/-- An address as it is usually written. -/
def dottedQuad (address : Word) : List Byte :=
  [(0x2e : Byte)].intercalate ((be32 address).map decimalText)

theorem decimal_decimalText (value : Byte) : decimal (decimalText value) 0 = value := by
  revert value
  decide +kernel

theorem decimalText_characters (value : Byte) :
    (0x2e : Byte) ∉ decimalText value ∧ (0x3a : Byte) ∉ decimalText value ∧ (decimalText value).length ≤ 3 := by
  revert value
  decide +kernel

/-- An address is read as it is written. -/
theorem dottedAddress_dottedQuad (address : Word) : dottedAddress (dottedQuad address) = address := by
  have parts : (dottedQuad address).splitOn 0x2e = (be32 address).map decimalText := by
    apply List.splitOn_intercalate
    · intro part member
      obtain ⟨value, -, rfl⟩ := List.mem_map.mp member
      exact (decimalText_characters value).1
    · exact List.cons_ne_nil _ _
  rw [dottedAddress, parts]
  simp only [be32, List.map_cons, List.map_nil, List.getD_cons_zero, List.getD_cons_succ, decimal_decimalText]
  exact ofBe32_extract address

theorem length_dottedQuad (address : Word) : (dottedQuad address).length ≤ ipConfigIpLen - 1 := by
  have digits (value : Byte) := (decimalText_characters value).2.2
  have first := digits (address.extractLsb' 24 8)
  have second := digits (address.extractLsb' 16 8)
  have third := digits (address.extractLsb' 8 8)
  have fourth := digits (address.extractLsb' 0 8)
  simp only [dottedQuad, be32, List.map_cons, List.map_nil, List.intercalate, List.intersperse, List.flatten_cons,
    List.flatten_nil, List.length_append, List.length_cons, List.length_nil, ipConfigIpLen]
  omega

/-- There is no port in an address. -/
theorem hostCopy_dottedQuad {hostname : CString} {address : Word} (written : hostname.bytes = dottedQuad address) :
    hostCopy hostname = dottedQuad address := by
  have noColon : (0x3a : Byte) ∉ dottedQuad address := by
    have digits (value : Byte) := (decimalText_characters value).2.1
    simp only [dottedQuad, be32, List.map_cons, List.map_nil, List.intercalate, List.intersperse, List.flatten_cons,
      List.flatten_nil, List.mem_append, List.mem_cons, List.not_mem_nil, digits, or_false, false_or]
    decide
  rw [hostCopy, written]
  apply List.takeWhile_eq_self_iff.mpr
  intro character member
  exact decide_eq_true fun colon => noColon (colon ▸ member)

/-- What reaches the patch is the host argument or the text for DHCP. -/
theorem patchIp_cases {remote : RemoteLoader} {hostname patchIp : CString} {dhcpReconnect : Bool}
    (reaches : remote.patchIp hostname = some (some patchIp, dhcpReconnect)) :
    (dhcpReconnect = true ∧ patchIp = dhcpSentinel) ∨ (dhcpReconnect = false ∧ patchIp = hostname) := by
  rw [RemoteLoader.patchIp] at reaches
  split at reaches
  · simp at reaches
  · split at reaches
    · simp only [Option.some.injEq, Prod.mk.injEq] at reaches
      exact .inr ⟨reaches.2.symm, reaches.1.symm⟩
    · split at reaches
      · split at reaches
        · simp at reaches
        · split at reaches
          · simp only [Option.some.injEq, Prod.mk.injEq] at reaches
            exact .inl ⟨reaches.2.symm, reaches.1.symm⟩
          · simp only [Option.some.injEq, Prod.mk.injEq] at reaches
            exact .inr ⟨reaches.2.symm, reaches.1.symm⟩
      · simp at reaches

/-- A loader comes up right from a patched image: nothing but the field is changed, and the loader reads from it
the address the host is connected to, or none. -/
def ComesUpRight (order : ByteOrder) (fwData patched memory : Buffer) (field : ℕ) (address : Word) : Prop :=
  (∀ i, i < field ∨ field + ipConfigIpLen ≤ i → patched i = fwData i) ∧
    (setIpFromString order (slice patched field ipConfigIpLen) (overlay [0, 0, 0, 0] memory) = some address ∨
      setIpFromString order (slice patched field ipConfigIpLen) (overlay [0, 0, 0, 0] memory) = some 0)

/-- With a resolver that reads addresses as they are written, a patched loader comes up right exactly if it has
been patched for DHCP, or the first fifteen characters of the host argument are the address when they are taken
for digits between dots, or zero; so it does for an address as it is usually written. -/
theorem patched_ip_right_iff {gethostbyname : List Byte → Option Word}
    (numeric : ∀ address, gethostbyname (dottedQuad address) = some address) {hostname : CString} {address : Word}
    (accepted : networkInit gethostbyname hostname = some address) {remote : RemoteLoader} {patchIp : CString}
    {dhcpReconnect : Bool} (reaches : remote.patchIp hostname = some (some patchIp, dhcpReconnect))
    {fwData patched : Buffer} {fwSize field : ℕ} (placed : ipField fwData fwSize = some field)
    (patches : patchFirmwareIp fwData fwSize patchIp = some patched) (order : ByteOrder) (memory : Buffer) :
    (ComesUpRight order fwData patched memory field address ↔
      dhcpReconnect ∨ dottedAddress (hostname.bytes.take 15) = address ∨ dottedAddress (hostname.bytes.take 15) = 0) ∧
    ((∃ written, hostname.bytes = dottedQuad written) → ComesUpRight order fwData patched memory field address) := by
  have image : patched = storeAt (storeAt fwData field (List.replicate ipConfigIpLen 0)) field
      (strncpy patchIp (ipConfigIpLen - 1)) := by
    rw [patchFirmwareIp, placed, Option.map_some, Option.some.injEq] at patches
    exact patches.symm
  have outside (i : ℕ) (away : i < field ∨ field + ipConfigIpLen ≤ i) : patched i = fwData i := by
    have copied : (strncpy patchIp (ipConfigIpLen - 1)).length ≤ ipConfigIpLen := by
      rw [strncpy, List.length_take]
      exact Nat.le_trans (Nat.min_le_left _ _) (Nat.sub_le _ _)
    rw [image, storeAt_outside _ (by omega), storeAt_outside _ (by rw [List.length_replicate]; exact away)]
  have read := setIpFromString_patched order fwData field patchIp memory
  rw [← image] at read
  have right : ComesUpRight order fwData patched memory field address ↔
      dottedAddress (patchIp.bytes.take 15) = address ∨ dottedAddress (patchIp.bytes.take 15) = 0 := by
    rw [ComesUpRight, read, and_iff_right outside, Option.some.injEq, Option.some.injEq]
    rfl
  constructor
  · rw [right]
    rcases patchIp_cases reaches with ⟨dhcp, rfl⟩ | ⟨static, rfl⟩
    · exact iff_of_true (.inr (by decide +kernel)) (.inl dhcp)
    · rw [static, or_iff_right Bool.false_ne_true]
  · rintro ⟨written, text⟩
    rw [right]
    rcases patchIp_cases reaches with ⟨-, rfl⟩ | ⟨-, rfl⟩
    · exact .inr (by decide +kernel)
    · have connected : written = address := by
        rw [networkInit, hostCopy_dottedQuad text, numeric, Option.some.injEq] at accepted
        exact accepted
      have whole : patchIp.bytes.take 15 = patchIp.bytes := by
        apply List.take_of_length_le
        rw [text]
        exact length_dottedQuad written
      rw [whole, text, dottedAddress_dottedQuad]
      exact .inl connected

/-- "192.168.1.5". -/
def plainHost : CString where
  bytes := [0x31, 0x39, 0x32, 0x2e, 0x31, 0x36, 0x38, 0x2e, 0x31, 0x2e, 0x35]
  no_nul := by decide

/-- "192.168.1.5:53535". -/
def hostWithPort : CString where
  bytes := plainHost.bytes ++ [0x3a, 0x35, 0x33, 0x35, 0x33, 0x35]
  no_nul := by decide

/-- A loader of this protocol, on the network. -/
def currentLoader : RemoteLoader where
  isSerial := false
  remoteCapabilities := 1
  remoteName := []
  loaderMem := none

/-- An image that is nothing but the place for the address. -/
def bareImage : Buffer := overlay (ipConfigMagic ++ List.replicate 16 0) fun _ => 0

/-- A resolver that takes every name for an address. -/
def numericResolver (name : List Byte) : Option Word := some (dottedAddress name)

theorem numericResolver_dottedQuad (address : Word) : numericResolver (dottedQuad address) = some address :=
  congrArg some (dottedAddress_dottedQuad address)

theorem ipField_bareImage : ipField bareImage 24 = some 8 := by decide +kernel

/-- A plain address comes up right. -/
theorem patched_ip_right_plain : ∃ patched, patchFirmwareIp bareImage 24 plainHost = some patched ∧
    ComesUpRight .little bareImage patched (fun _ => 0) 8 0xc0a80105 := by
  have accepted : networkInit numericResolver plainHost = some 0xc0a80105 := by decide +kernel
  have reaches : currentLoader.patchIp plainHost = some (some plainHost, false) := rfl
  refine ⟨_, rfl, ?_⟩
  exact (patched_ip_right_iff numericResolver_dottedQuad accepted reaches ipField_bareImage rfl .little fun _ => 0).2
    ⟨0xc0a80105, by decide +kernel⟩

/-- With a port behind it the address comes up as another one. -/
theorem patched_ip_wrong : ¬ ∀ (gethostbyname : List Byte → Option Word) (hostname : CString) (address : Word)
    (remote : RemoteLoader) (patchIp : CString) (dhcpReconnect : Bool) (fwData patched : Buffer) (fwSize field : ℕ)
    (order : ByteOrder) (memory : Buffer), (∀ address, gethostbyname (dottedQuad address) = some address) →
      networkInit gethostbyname hostname = some address →
      remote.patchIp hostname = some (some patchIp, dhcpReconnect) → ipField fwData fwSize = some field →
      patchFirmwareIp fwData fwSize patchIp = some patched → ComesUpRight order fwData patched memory field address := by
  intro right
  have accepted : networkInit numericResolver hostWithPort = some 0xc0a80105 := by decide +kernel
  have reaches : currentLoader.patchIp hostWithPort = some (some hostWithPort, false) := rfl
  have up := right _ _ _ _ _ _ _ _ _ _ .little (fun _ => 0) numericResolver_dottedQuad accepted reaches
    ipField_bareImage rfl
  have read := setIpFromString_patched .little bareImage 8 hostWithPort fun _ => 0
  have other : dottedAddress (hostWithPort.bytes.take (ipConfigIpLen - 1)) = 0xc0a80177 := by decide +kernel
  rw [other] at read
  rcases up.2 with same | none
  · exact absurd (Option.some.inj (read.symm.trans same)) (by decide)
  · exact absurd (Option.some.inj (read.symm.trans none)) (by decide)

end KosTool.Client
