import KosTool.Math.Tlv
import KosTool.Model.Client.Dhcp

/-! # The DHCP options as tag, length and value

The scans stop at the first occurrence of their tag, whole or not, and take the value from there. What they return is the value
of the first whole option exactly if that occurrence is one, or if its bytes happen to give the same.
-/

namespace KosTool.Client.DhcpOptions

open ByteWord Tlv

section Scan

variable {area : List Byte} {opt : Byte}

theorem fetch_eq {i : ℕ} (inside : i < area.length) : fetch area i = .ok area[i] := by
  rw [fetch, List.getElem?_eq_getElem inside]

/-- What is behind the first occurrence of a tag in the options from an index on. -/
abbrev behindTag (opt : Byte) (area : List Byte) (i : ℕ) : Option (List Byte) :=
  seek dhcpOptionPad dhcpOptionEnd BitVec.toNat opt (area.drop i)

variable {β : Type} {hit : ℕ → Except ScanFault β} {missing : β}

section Turn

variable {turns i : ℕ}

theorem scan_done (outside : area.length ≤ i) : scanOptions area opt hit missing (turns + 1) i = .ok missing := by
  rw [scanOptions, if_neg (not_lt.mpr outside)]

theorem scan_found (inside : i < area.length) (found : area[i] = opt) :
    scanOptions area opt hit missing (turns + 1) i = hit i := by
  rw [scanOptions, if_pos inside, fetch_eq inside]
  exact if_pos found

theorem scan_pad (inside : i < area.length) (other : area[i] ≠ opt) (pad : area[i] = dhcpOptionPad) :
    scanOptions area opt hit missing (turns + 1) i = scanOptions area opt hit missing turns (i + 1) := by
  rw [scanOptions, if_pos inside, fetch_eq inside]
  exact (if_neg other).trans (if_pos pad)

theorem scan_end (inside : i < area.length) (other : area[i] ≠ opt) (stop : area[i] = dhcpOptionEnd) :
    scanOptions area opt hit missing (turns + 1) i = .ok missing := by
  rw [scanOptions, if_pos inside, fetch_eq inside]
  exact (if_neg other).trans ((if_neg (by rw [stop]; decide)).trans (if_pos stop))

theorem scan_last (inside : i < area.length) (other : area[i] ≠ opt) (pad : area[i] ≠ dhcpOptionPad)
    (stop : area[i] ≠ dhcpOptionEnd) (last : area.length ≤ i + 1) :
    scanOptions area opt hit missing (turns + 1) i = .ok missing := by
  rw [scanOptions, if_pos inside, fetch_eq inside]
  exact (if_neg other).trans ((if_neg pad).trans ((if_neg stop).trans (if_pos last)))

theorem scan_skip (more : i + 1 < area.length) (other : area[i] ≠ opt) (pad : area[i] ≠ dhcpOptionPad)
    (stop : area[i] ≠ dhcpOptionEnd) : scanOptions area opt hit missing (turns + 1) i =
      scanOptions area opt hit missing turns (i + area[i + 1].toNat + 2) := by
  rw [scanOptions, if_pos (by omega), fetch_eq (by omega), fetch_eq more]
  exact (if_neg other).trans ((if_neg pad).trans ((if_neg stop).trans (if_neg (not_le.mpr more))))

end Turn

/-- The loop ends within the area: at the first occurrence of the tag, or with the value for none. -/
theorem scanOptions_cases {turns i : ℕ} (enough : area.length - i < turns) :
    (behindTag opt area i = none ∧ scanOptions area opt hit missing turns i = .ok missing) ∨
      ∃ j behind, behindTag opt area i = some behind ∧ area.drop j = opt :: behind ∧
        scanOptions area opt hit missing turns i = hit j := by
  induction turns generalizing i with
  | zero => omega
  | succ turns ih =>
    by_cases inside : i < area.length
    · have here : area.drop i = area[i] :: area.drop (i + 1) := List.drop_eq_getElem_cons inside
      by_cases found : area[i] = opt
      · rw [behindTag, here, found, scan_found inside found, seek_tag]
        exact .inr ⟨i, area.drop (i + 1), rfl, by rw [here, found], rfl⟩
      by_cases pad : area[i] = dhcpOptionPad
      · rw [behindTag, here, pad, scan_pad inside found pad, seek_pad (pad ▸ found)]
        exact ih (by omega)
      by_cases stop : area[i] = dhcpOptionEnd
      · rw [behindTag, here, stop, scan_end inside found stop, seek_stop (stop ▸ found) (by decide)]
        exact .inl ⟨rfl, rfl⟩
      by_cases more : i + 1 < area.length
      · have next : area.drop (i + 1) = area[i + 1] :: area.drop (i + 2) := List.drop_eq_getElem_cons more
        have behind : i + 2 + area[i + 1].toNat = i + area[i + 1].toNat + 2 := by omega
        rw [behindTag, here, next, scan_skip more found pad stop, seek_option found pad stop, List.drop_drop, behind]
        exact ih (by omega)
      · have nothing : area.drop (i + 1) = [] := List.drop_eq_nil_of_le (not_lt.mp more)
        rw [behindTag, here, nothing, scan_last inside found pad stop (not_lt.mp more), seek_single found pad stop]
        exact .inl ⟨rfl, rfl⟩
    · have nothing : area.drop i = [] := List.drop_eq_nil_of_le (not_lt.mp inside)
      rw [behindTag, nothing, scan_done (not_lt.mp inside), seek]
      exact .inl ⟨rfl, rfl⟩

end Scan

section Values

variable {area : List Byte}

/-- The number of four bytes, most significant first; anything else counts as nothing. -/
def word32 : List Byte → Word
  | [b0, b1, b2, b3] => ofBe32 b0 b1 b2 b3
  | _ => 0

/-- What `kos_net_dhcp_get_message_type` takes from the bytes behind its tag. -/
theorem messageTypeAt_eq {j : ℕ} {tag : Byte} {behind : List Byte} (here : area.drop j = tag :: behind) :
    messageTypeAt area j = .ok behind[1]? := by
  have length := congrArg List.length here
  have at_j (k : ℕ) : area[j + k]? = (tag :: behind)[k]? := by rw [← here, List.getElem?_drop]
  have value := at_j 2
  rw [List.getElem?_cons_succ] at value
  rw [List.length_drop, List.length_cons] at length
  rw [messageTypeAt, ← value]
  split_ifs with inside
  · rw [fetch_eq inside, List.getElem?_eq_getElem inside]
    rfl
  · rw [List.getElem?_eq_none (by omega)]

theorem word32_short {bytes : List Byte} (short : bytes.length < 4) : word32 bytes = 0 := by
  match bytes with
  | [] | [_] | [_, _] | [_, _, _] => rfl

/-- What `kos_net_dhcp_get_32bit` takes from the bytes behind its tag and its length. -/
theorem get32bitAt_cons {j : ℕ} {tag length : Byte} {body : List Byte} (here : area.drop j = tag :: length :: body) :
    get32bitAt area j = .ok (if length < 4 then 0 else word32 (body.take 4)) := by
  have count := congrArg List.length here
  have at_j (k : ℕ) : area[j + k]? = (tag :: length :: body)[k]? := by rw [← here, List.getElem?_drop]
  rw [List.length_drop, List.length_cons, List.length_cons] at count
  rw [get32bitAt]
  match body with
  | b0 :: b1 :: b2 :: b3 :: rest =>
    have found (k : ℕ) (byte : Byte) (is : (tag :: length :: b0 :: b1 :: b2 :: b3 :: rest)[k]? = some byte) :
        fetch area (j + k) = .ok byte := by rw [fetch, at_j, is]
    simp only [List.length_cons] at count
    rw [if_neg (by omega), found 1 length rfl, word32At, found 2 b0 rfl, found 3 b1 rfl, found 4 b2 rfl, found 5 b3 rfl]
    dsimp only [bind, Except.bind]
    split_ifs <;> rfl
  | [] | [_] | [_, _] | [_, _, _] =>
    simp only [List.length_cons, List.length_nil] at count
    rw [if_pos (by omega)]
    split_ifs <;> rfl

/-- A tag that ends the area has no word. -/
theorem get32bitAt_single {j : ℕ} {tag : Byte} (here : area.drop j = [tag]) : get32bitAt area j = .ok 0 := by
  have count := congrArg List.length here
  rw [List.length_drop, List.length_singleton] at count
  rw [get32bitAt, if_pos (by omega)]

end Values

section Reading

/-- The value of the first whole option with a tag and as many bytes. -/
abbrev valueIn (opt : Byte) (count : ℕ) (options : List Byte) : Option (List Byte) :=
  firstValue dhcpOptionPad dhcpOptionEnd BitVec.toNat opt count options

/-- The message type that an area has behind its magic cookie. -/
def messageTypeOf (area : List Byte) : Option Byte := (valueIn dhcpOptionMessageType 1 (area.drop 4)).bind List.head?

/-- The word that an area has for a tag. -/
def word32Of (opt : Byte) (area : List Byte) : Word := word32 ((valueIn opt 4 (area.drop 4)).getD [])

/-- The first message type has a value that it reaches, or nothing behind its length, or it is empty and the byte behind it is
the message type that the options from there on have. -/
def MessageTypeClear (area : List Byte) : Prop :=
  ∀ length body, behindTag dhcpOptionMessageType area 4 = some (length :: body) →
    (1 ≤ length.toNat ∧ length.toNat ≤ body.length) ∨ body = [] ∨
      (length.toNat = 0 ∧ (valueIn dhcpOptionMessageType 1 body).bind List.head? = body.head?)

/-- The first option with the tag and four bytes behind its length reaches them and is whole, or has nothing but zeros there; a
shorter one is not followed by another that says anything. -/
def Word32Clear (opt : Byte) (area : List Byte) : Prop :=
  ∀ length body, behindTag opt area 4 = some (length :: body) → 4 ≤ body.length →
    if 4 ≤ length.toNat then length.toNat ≤ body.length ∨ word32 (body.take 4) = 0
    else word32 ((valueIn opt 4 (body.drop length.toNat)).getD []) = 0

theorem valueIn_eq (opt : Byte) (count : ℕ) (area : List Byte) : valueIn opt count (area.drop 4) =
    (behindTag opt area 4).bind fun behind => valueIn opt count (opt :: behind) := firstValue_of_seek count (area.drop 4)

theorem valueIn_single {opt : Byte} (pad : opt ≠ dhcpOptionPad) (stop : opt ≠ dhcpOptionEnd) (count : ℕ) :
    valueIn opt count [opt] = none := firstValue_single pad stop count

theorem valueIn_tag {opt : Byte} (pad : opt ≠ dhcpOptionPad) (stop : opt ≠ dhcpOptionEnd) (count : ℕ) (length : Byte)
    (body : List Byte) : valueIn opt count (opt :: length :: body) =
      if length.toNat ≤ body.length then
        if count ≤ length.toNat then some (body.take count) else valueIn opt count (body.drop length.toNat)
      else none := firstValue_tag pad stop count length body

theorem valueIn_short {opt : Byte} {count : ℕ} {options : List Byte} (short : options.length < count + 2) :
    valueIn opt count options = none := firstValue_short short

theorem forall_behind {P : Byte → List Byte → Prop} (length : Byte) (body : List Byte) :
    (∀ length' body', some (length :: body) = some (length' :: body') → P length' body') ↔ P length body := by
  constructor
  · exact fun all => all length body rfl
  · rintro one length' body' ⟨⟩
    exact one

theorem head?_take_one (body : List Byte) : (body.take 1).head? = body.head? := by
  cases body <;> rfl

theorem getMessageType_cases (area : List Byte) :
    ∃ found, getMessageType area = .ok found ∧ (found = messageTypeOf area ↔ MessageTypeClear area) := by
  rcases scanOptions_cases (by omega : area.length - 4 < area.length + 1) with
    ⟨absent, result⟩ | ⟨j, behind, present, here, result⟩
  · refine ⟨none, result, iff_of_true ?_ fun length body there => ?_⟩
    · rw [messageTypeOf, valueIn_eq, absent]
      rfl
    · rw [absent] at there
      nomatch there
  · refine ⟨behind[1]?, result.trans (messageTypeAt_eq here), ?_⟩
    rw [messageTypeOf, valueIn_eq, MessageTypeClear, present, Option.bind_some]
    cases behind with
    | nil =>
      rw [valueIn_single (by decide) (by decide)]
      exact iff_of_true rfl fun length body there => nomatch there
    | cons length body =>
      rw [forall_behind, valueIn_tag (by decide) (by decide), List.getElem?_cons_succ, ← List.head?_eq_getElem?]
      cases body with
      | nil =>
        refine iff_of_true ?_ (.inr (.inl rfl))
        split_ifs with whole long
        · rfl
        · rw [List.drop_nil, valueIn, firstValue_nil]
          rfl
        · rfl
      | cons byte rest =>
        split_ifs with whole long
        · exact iff_of_true (head?_take_one _).symm (.inl ⟨long, whole⟩)
        · have empty : length.toNat = 0 := by omega
          rw [empty, List.drop_zero]
          constructor
          · exact fun same => .inr (.inr ⟨rfl, same.symm⟩)
          · rintro (⟨long, -⟩ | gone | ⟨-, same⟩)
            · omega
            · nomatch gone
            · exact same.symm
        · refine iff_of_false (fun same => nomatch same) ?_
          rintro (⟨-, whole'⟩ | gone | ⟨empty, -⟩)
          · exact whole whole'
          · nomatch gone
          · omega

theorem get32bit_cases (area : List Byte) {opt : Byte} (pad : opt ≠ dhcpOptionPad) (stop : opt ≠ dhcpOptionEnd) :
    ∃ value, get32bit area opt = .ok value ∧ (value = word32Of opt area ↔ Word32Clear opt area) := by
  rcases scanOptions_cases (by omega : area.length - 4 < area.length + 1) with
    ⟨absent, result⟩ | ⟨j, behind, present, here, result⟩
  · refine ⟨0, result, iff_of_true ?_ fun length body there => ?_⟩
    · rw [word32Of, valueIn_eq, absent]
      rfl
    · rw [absent] at there
      nomatch there
  · rw [word32Of, valueIn_eq, Word32Clear, present, Option.bind_some]
    cases behind with
    | nil =>
      refine ⟨0, result.trans (get32bitAt_single here), ?_⟩
      rw [valueIn_single pad stop]
      exact iff_of_true rfl fun length body there => nomatch there
    | cons length body =>
      refine ⟨_, result.trans (get32bitAt_cons here), ?_⟩
      have small : length < 4 ↔ length.toNat < 4 := BitVec.lt_def
      rw [forall_behind, valueIn_tag pad stop]
      by_cases short : length < 4
      · have under := small.mp short
        rw [if_pos short, if_neg (by omega : ¬4 ≤ length.toNat), if_neg (by omega : ¬4 ≤ length.toNat)]
        split_ifs with whole
        · by_cases reach : 4 ≤ body.length
          · exact ⟨fun same _ => same.symm, fun nothing => (nothing reach).symm⟩
          · rw [valueIn_short (by rw [List.length_drop]; omega)]
            exact iff_of_true rfl fun reach' => absurd reach' reach
        · exact iff_of_true rfl fun reach => by omega
      · have overrun := mt small.mpr short
        rw [if_neg short, if_pos (by omega : 4 ≤ length.toNat), if_pos (by omega : 4 ≤ length.toNat)]
        split_ifs with whole
        · exact iff_of_true rfl fun _ => .inl whole
        · by_cases reach : 4 ≤ body.length
          · exact ⟨fun same _ => .inr same, fun nothing => (nothing reach).resolve_left whole⟩
          · have zero : word32 (body.take 4) = 0 := word32_short (by rw [List.length_take]; omega)
            exact iff_of_true zero fun reach' => absurd reach' reach

/-- Both scans end, read nothing outside the area, and return the value of the first whole option exactly if the first
occurrence of the tag allows it. -/
theorem option_scans_iff (area : List Byte) {opt : Byte} (pad : opt ≠ dhcpOptionPad) (stop : opt ≠ dhcpOptionEnd) :
    (∃ found, getMessageType area = .ok found ∧ (found = messageTypeOf area ↔ MessageTypeClear area)) ∧
      ∃ value, get32bit area opt = .ok value ∧ (value = word32Of opt area ↔ Word32Clear opt area) :=
  ⟨getMessageType_cases area, get32bit_cases area pad stop⟩

theorem option_scans_ack : (∃ found, getMessageType [0x63, 0x82, 0x53, 0x63, 53, 1, 5, 255] = .ok found ∧
    (found = messageTypeOf [0x63, 0x82, 0x53, 0x63, 53, 1, 5, 255] ↔ MessageTypeClear [0x63, 0x82, 0x53, 0x63, 53, 1, 5, 255])) ∧
    ∃ value, get32bit [0x63, 0x82, 0x53, 0x63, 53, 1, 5, 255] dhcpOptionIpLeaseTime = .ok value ∧
      (value = word32Of dhcpOptionIpLeaseTime [0x63, 0x82, 0x53, 0x63, 53, 1, 5, 255] ↔
        Word32Clear dhcpOptionIpLeaseTime [0x63, 0x82, 0x53, 0x63, 53, 1, 5, 255]) :=
  option_scans_iff [0x63, 0x82, 0x53, 0x63, 53, 1, 5, 255] (by decide) (by decide)

/-- An empty message type takes the byte behind it, which ends the options, for its value. -/
theorem empty_message_type_misread : getMessageType [0x63, 0x82, 0x53, 0x63, 53, 0, 255] = .ok (some 255) ∧
    messageTypeOf [0x63, 0x82, 0x53, 0x63, 53, 0, 255] = none := by
  refine ⟨by rfl, ?_⟩
  rw [messageTypeOf]
  exact congrArg (Option.bind · List.head?) ((valueIn_tag (by decide) (by decide) 1 0 [255]).trans
    (firstValue_stop (by decide) 1 []))

end Reading

section Replies

variable (reply : DhcpReply)

/-- The options area of a packet. -/
def areaOf : List Byte := slice reply.packet dhcpHLen (reply.length - dhcpHLen)

theorem length_areaOf : (areaOf reply).length = reply.length - dhcpHLen := length_slice _ _ _

theorem getElem_areaOf {i : ℕ} (inside : i < (areaOf reply).length) : (areaOf reply)[i] = reply.options i :=
  getElem_slice _ _ _ _ inside

/-- The loop finds the option of the walk over the packet. -/
theorem scanOptions_areaOf {β : Type} {hit : ℕ → Except ScanFault β} {missing : β} {opt : Byte} {turns i : ℕ}
    (enough : reply.length - dhcpHLen - i < turns) : scanOptions (areaOf reply) opt hit missing turns i =
      match reply.findOption opt turns i with
      | some j => hit j
      | none => .ok missing := by
  induction turns generalizing i with
  | zero => omega
  | succ turns ih =>
    have length := length_areaOf reply
    rw [DhcpReply.findOption]
    by_cases inside : i < reply.length - dhcpHLen
    · have here := getElem_areaOf reply (by omega : i < (areaOf reply).length)
      rw [if_pos inside]
      by_cases found : reply.options i = opt
      · rw [if_pos found, scan_found (by omega) (here.trans found)]
      rw [if_neg found]
      by_cases pad : reply.options i = dhcpOptionPad
      · rw [if_pos pad, scan_pad (by omega) (here ▸ found) (here ▸ pad), ih (by omega)]
      rw [if_neg pad]
      by_cases stop : reply.options i = dhcpOptionEnd
      · rw [if_pos stop, scan_end (by omega) (here ▸ found) (here ▸ stop)]
      rw [if_neg stop]
      by_cases last : reply.length - dhcpHLen ≤ i + 1
      · rw [if_pos last, scan_last (by omega) (here ▸ found) (here ▸ pad) (here ▸ stop) (by omega)]
      · rw [if_neg last, scan_skip (by omega) (here ▸ found) (here ▸ pad) (here ▸ stop), getElem_areaOf, ih (by omega)]
    · rw [if_neg inside, scan_done (by omega)]

theorem findOption_areaOf (opt : Byte) :
    reply.findOption opt ((areaOf reply).length + 1) 4 = reply.findOption opt reply.length 4 := by
  have enough : reply.length - dhcpHLen ≤ 4 + (reply.length - dhcpHLen) := Nat.le_add_left _ _
  rw [length_areaOf, reply.findOption_fuel opt enough (Nat.le_succ _), reply.findOption_fuel opt enough (Nat.sub_le _ _)]

/-- The scans of a packet are those of its options area. -/
theorem getMessageType_areaOf : getMessageType (areaOf reply) = .ok reply.getMessageType := by
  have length := length_areaOf reply
  rw [getMessageType, scanOptions_areaOf reply (by omega), findOption_areaOf, DhcpReply.getMessageType]
  cases reply.findOption dhcpOptionMessageType reply.length 4 with
  | none => rfl
  | some i =>
    dsimp only
    rw [messageTypeAt, length]
    split_ifs with inside
    · rw [fetch_eq (by omega), getElem_areaOf]
      rfl
    · rfl

theorem get32bit_areaOf (opt : Byte) : get32bit (areaOf reply) opt = .ok (reply.get32bit opt) := by
  have length := length_areaOf reply
  rw [get32bit, scanOptions_areaOf reply (by omega), findOption_areaOf, DhcpReply.get32bit]
  cases reply.findOption opt reply.length 4 with
  | none => rfl
  | some i =>
    dsimp only
    rw [get32bitAt, length]
    split_ifs with outside small
    · rfl
    · rw [fetch_eq (by omega), getElem_areaOf]
      exact if_pos small
    · rw [fetch_eq (by omega), getElem_areaOf, word32At, fetch_eq (by omega), fetch_eq (by omega), fetch_eq (by omega),
        fetch_eq (by omega), getElem_areaOf, getElem_areaOf, getElem_areaOf, getElem_areaOf]
      exact if_neg small

end Replies

end KosTool.Client.DhcpOptions
