import KosTool.Model.Argv
import Mathlib.Tactic.SplitIfs

/-! # What a program finds as its arguments

The arguments that fit, in order, arrive over both transports. The console believes the count of an `EXEC`, whatever
strings come with it, so for other senders a program that walks its arguments stays inside the array exactly if the
count is no larger than the number of terminators there.
-/

namespace KosTool

open ByteWord Protocol Host TerminatedStrings
open Serial (uintBytes bytesUint)

/-- Arguments in a row, each with its terminator. -/
def packed (arguments : List CString) : List Byte := joined 0 (arguments.map (·.bytes))

/-- The console terminates a byte of the array, and the walk over the arguments finds its terminators there. -/
structure ArgvLoad.Inside (load : ArgvLoad) : Prop where
  terminator : ∀ i, load.terminator = some i → 0 ≤ i ∧ i < maxArgvData
  walk : (walk 0 load.info.argc.toNat load.info.argvData).isSome

/-- The program finds the arguments, or the first of them that fit; none if the console does not take any. -/
def ArgvLoad.Delivers (arguments : List CString) (supportsArgv : Bool) (load : ArgvLoad) : Prop :=
  ∃ count ≤ arguments.length, ∃ rest, load.info.argc.toNat = count ∧
    TerminatedStrings.walk 0 count load.info.argvData = some ((arguments.take count).map (·.bytes), rest) ∧
    (count = arguments.length ∨ supportsArgv = false ∨ maxArgvData < (packed (arguments.take (count + 1))).length)

/-- What an `EXEC` leaves that a host has sent over the network. -/
def networkArgv (info : ArgvInfo) (prog : ProgArgv) (supportsArgv isWiiLoader : Bool) (address flags : Word) : ArgvLoad :=
  cmdExecuteArgv info ((networkExecute prog supportsArgv isWiiLoader address flags).drop netCommandLen)

/-- The count of an `EXEC` fits the bytes that come with it: there are some, and with the last of them made a
terminator they and what remains of the array hold as many. -/
def ArgvFits (info : ArgvInfo) (progArgc : Word) (bytes : List Byte) : Prop :=
  bytes ≠ [] ∧ progArgc.toNat ≤ bytes.dropLast.count 0 + 1 + (info.clear.argvData.drop bytes.length).count 0

/-- The payload of an `EXEC` has no arguments, or its count fits. -/
def NetworkArgvFits (info : ArgvInfo) (data : List Byte) : Prop :=
  5 ≤ data.length → beUint (data.take 4) ≠ 0#32 →
    ArgvFits info (beUint (data.take 4)) ((data.drop 4).take maxArgvData)

/-- What comes behind the address has no arguments, or its count fits. -/
def SerialArgvFits (info : ArgvInfo) (input : List Byte) : Prop :=
  bytesUint (input.take 4) &&& kosloadSerialExecArgv ≠ 0#32 → bytesUint ((input.drop 4).take 4) ≠ 0#32 →
    ArgvFits info (bytesUint ((input.drop 4).take 4))
      ((input.drop 12).take (min (bytesUint ((input.drop 8).take 4)).toNat maxArgvData))

section Store

variable {info : ArgvInfo} {progArgc : Word} {bytes : List Byte}

/-- The array after bytes have been stored. -/
theorem store_argvData (some : bytes ≠ []) (short : bytes.length ≤ maxArgvData) :
    (info.store progArgc bytes).info.argvData = bytes.dropLast ++ 0 :: info.argvData.drop bytes.length := by
  have fits : bytes.length ≤ info.argvData.length := by rwa [info.length_argvData]
  simp only [ArgvInfo.store, if_neg some, ListOverwrite.overwrite, List.take_of_length_le fits]
  obtain ⟨body, last, rfl⟩ := List.eq_nil_or_concat bytes |>.resolve_left some
  rw [List.concat_eq_append, List.dropLast_concat, List.length_append, List.length_singleton, Nat.add_sub_cancel,
    List.append_assoc,
    List.set_append_right _ _ (Nat.le_refl _), Nat.sub_self, List.singleton_append, List.set_cons_zero]

/-- The last of some bytes that fit is a byte of the array. -/
theorem store_terminator (some : bytes ≠ []) (short : bytes.length ≤ maxArgvData) {i : ℤ}
    (index : (info.store progArgc bytes).terminator = Option.some i) : 0 ≤ i ∧ i < maxArgvData := by
  have positive := List.length_pos_iff.mpr some
  cases index
  omega

/-- The program stays inside exactly if the count fits. -/
theorem inside_store_iff (short : bytes.length ≤ maxArgvData) :
    (info.clear.store progArgc bytes).Inside ↔ ArgvFits info progArgc bytes := by
  by_cases some : bytes = []
  · subst some
    refine iff_of_false (fun inside => ?_) fun fits => fits.1 rfl
    have lower := (inside.terminator (-1) rfl).1
    omega
  · have walks : (walk 0 progArgc.toNat (info.clear.store progArgc bytes).info.argvData).isSome ↔
        progArgc.toNat ≤ bytes.dropLast.count 0 + 1 + (info.clear.argvData.drop bytes.length).count 0 := by
      rw [walk_isSome_iff, store_argvData some short, List.count_append, List.count_cons_self]
      omega
    constructor
    · exact fun inside => ⟨some, walks.mp inside.walk⟩
    · rintro ⟨-, fits⟩
      exact ⟨fun i => store_terminator some short, walks.mpr fits⟩

theorem inside_clear : ArgvLoad.Inside { info := info.clear, terminator := none } := by
  constructor
  · intro i index
    cases index
  · rfl

end Store

section Host

variable {argument argv0 : CString} {arguments args : List CString}

theorem packed_nil : packed [] = [] := rfl

theorem packed_cons : packed (argument :: arguments) = argument.terminated ++ packed arguments := rfl

theorem packed_append {others : List CString} : packed (arguments ++ others) = packed arguments ++ packed others := by
  rw [packed, joined, List.map_append, List.flatMap_append]
  rfl

theorem length_le_packed : arguments.length ≤ (packed arguments).length := by
  induction arguments with
  | nil => exact Nat.zero_le _
  | cons argument arguments ih =>
    rw [packed_cons, List.length_append, CString.terminated, List.length_append, List.length_singleton, List.length_cons]
    omega

theorem packed_ne_nil (some : arguments ≠ []) : packed arguments ≠ [] := by
  intro none
  have count := @length_le_packed arguments
  rw [none] at count
  exact some (List.length_eq_zero_iff.mp (Nat.le_zero.mp count))

/-- The last byte is a terminator. -/
theorem packed_eq_concat (some : arguments ≠ []) : packed arguments = (packed arguments).dropLast ++ [0] := by
  obtain ⟨others, last, rfl⟩ := List.eq_nil_or_concat arguments |>.resolve_left some
  rw [List.concat_eq_append, packed_append, packed_cons, packed_nil, List.append_nil, CString.terminated,
    ← List.append_assoc, List.dropLast_concat]

/-- The loop appends the arguments that fit, up to the first that does not. -/
theorem appendArgs_spec {bytes : List Byte} (room : bytes.length ≤ maxArgvData) (args : List CString) :
    ∃ count ≤ args.length, appendArgs bytes args = (count, bytes ++ packed (args.take count)) ∧
      (bytes ++ packed (args.take count)).length ≤ maxArgvData ∧
      (count = args.length ∨ maxArgvData < (bytes ++ packed (args.take (count + 1))).length) := by
  induction args generalizing bytes with
  | nil =>
    refine ⟨0, Nat.le_refl _, ?_, ?_, Or.inl rfl⟩
    · rw [appendArgs, List.take_nil, packed_nil, List.append_nil]
    · rwa [List.take_nil, packed_nil, List.append_nil]
  | cons arg args ih =>
    rw [appendArgs]
    split_ifs with full
    · refine ⟨0, Nat.zero_le _, by rw [List.take_zero, packed_nil, List.append_nil], ?_, Or.inr ?_⟩
      · rwa [List.take_zero, packed_nil, List.append_nil]
      · rwa [Nat.zero_add, List.take_succ_cons, List.take_zero, packed_cons, packed_nil, List.append_nil,
          List.length_append]
    · have fits : (bytes ++ arg.terminated).length ≤ maxArgvData := by
        rw [List.length_append]
        omega
      obtain ⟨count, bounded, loop, short, rest⟩ := ih fits
      refine ⟨count + 1, Nat.succ_le_succ bounded, ?_, ?_, ?_⟩
      · rw [loop, List.take_succ_cons, packed_cons, List.append_assoc]
      · rwa [List.take_succ_cons, packed_cons, ← List.append_assoc]
      · rw [List.take_succ_cons, packed_cons, ← List.append_assoc, List.length_cons]
        exact rest.imp_left (congrArg (· + 1))

/-- The vector of `main`: the first arguments, as many as fit. -/
theorem mainArgv_spec (argv0 : CString) (args : List CString) :
    ∃ count ≤ (argv0 :: args).length, (mainArgv argv0 args).argc = count ∧
      (mainArgv argv0 args).data = progArgvData (packed ((argv0 :: args).take count)) ∧
      (packed ((argv0 :: args).take count)).length ≤ maxArgvData ∧
      (count = (argv0 :: args).length ∨ maxArgvData < (packed ((argv0 :: args).take (count + 1))).length) := by
  by_cases full : maxArgvData < argv0.terminated.length
  · refine ⟨0, Nat.zero_le _, by rw [mainArgv, if_pos full], by rw [mainArgv, if_pos full]; rfl, Nat.zero_le _, Or.inr ?_⟩
    rw [Nat.zero_add, List.take_succ_cons, List.take_zero, packed_cons, List.length_append]
    omega
  · obtain ⟨count, bounded, loop, short, rest⟩ := appendArgs_spec (Nat.not_lt.mp full) args
    rw [mainArgv, if_neg full, loop]
    refine ⟨count + 1, Nat.succ_le_succ bounded, Nat.add_comm 1 count, ?_, ?_, ?_⟩
    · rw [List.take_succ_cons, packed_cons]
    · rwa [List.take_succ_cons, packed_cons]
    · rw [List.take_succ_cons, packed_cons, List.length_cons]
      exact rest.imp_left (congrArg (· + 1))

theorem cString_terminated_append (argument : CString) (rest : List Byte) :
    cString (argument.terminated ++ rest) = argument.bytes := by
  rw [cString, CString.terminated, List.append_assoc, List.takeWhile_append_of_pos]
  · simp
  · intro byte inside
    simp only [ne_eq, decide_not, Bool.not_eq_eq_eq_not, Bool.not_true, decide_eq_false_iff_not]
    rintro rfl
    exact argument.no_nul inside

/-- The lengths add up to that of the packed arguments. -/
theorem argvDataLen_packed (arguments : List CString) (rest : List Byte) :
    argvDataLen arguments.length (packed arguments ++ rest) = (packed arguments).length := by
  induction arguments with
  | nil => rfl
  | cons argument arguments ih =>
    have length : argument.bytes.length + 1 = argument.terminated.length := by
      rw [CString.terminated, List.length_append, List.length_singleton]
    rw [packed_cons, List.append_assoc, List.length_cons, argvDataLen, cString_terminated_append, length,
      List.drop_left', ih, List.length_append]
    rfl

theorem progArgvData_packed (short : (packed arguments).length ≤ maxArgvData) :
    progArgvData (packed arguments) =
      packed arguments ++ (List.replicate maxArgvData 0).drop (packed arguments).length := by
  rw [progArgvData, ListOverwrite.overwrite, List.take_of_length_le]
  rwa [List.length_replicate]

theorem argvDataLen_progArgvData (short : (packed arguments).length ≤ maxArgvData) :
    argvDataLen arguments.length (progArgvData (packed arguments)) = (packed arguments).length := by
  rw [progArgvData_packed short, argvDataLen_packed]

/-- The bytes `network_execute` and `serial_execute` take are those of the arguments. -/
theorem take_progArgvData (short : (packed arguments).length ≤ maxArgvData) :
    (progArgvData (packed arguments)).take (argvDataLen arguments.length (progArgvData (packed arguments))) =
      packed arguments := by
  rw [argvDataLen_progArgvData short, progArgvData_packed short, List.take_left' rfl]

end Host

section Delivery

variable {info : ArgvInfo} {arguments : List CString}

/-- The packed arguments, with or without padding, leave the arguments at the start of the array. -/
theorem store_packed (some : arguments ≠ []) (pad : List Byte) (progArgc : Word)
    (short : (packed arguments).length ≤ maxArgvData) : ∃ rest,
    (info.store progArgc ((packed arguments ++ pad).take maxArgvData)).info.argvData = packed arguments ++ rest := by
  have stored : (packed arguments ++ pad).take maxArgvData =
      packed arguments ++ pad.take (maxArgvData - (packed arguments).length) := by
    rw [List.take_append, List.take_of_length_le short]
  have nonempty : (packed arguments ++ pad).take maxArgvData ≠ [] := by
    rw [stored]
    exact fun none => packed_ne_nil some (List.append_eq_nil_iff.mp none).1
  rw [store_argvData nonempty (List.length_take_le _ _), stored]
  by_cases bare : pad.take (maxArgvData - (packed arguments).length) = []
  · rw [bare, List.append_nil]
    refine ⟨info.argvData.drop (packed arguments).length, ?_⟩
    nth_rewrite 3 [packed_eq_concat some]
    rw [List.append_assoc, List.singleton_append]
  · rw [List.dropLast_append_of_ne_nil bare, List.append_assoc]
    exact ⟨_, rfl⟩

/-- The stored arguments are delivered, and the program stays inside. -/
theorem delivers_store {given : List CString} {count : ℕ} {supportsArgv : Bool} (pad : List Byte) (positive : 0 < count)
    (bounded : count ≤ given.length) (short : (packed (given.take count)).length ≤ maxArgvData)
    (rest : count = given.length ∨ maxArgvData < (packed (given.take (count + 1))).length) :
    (info.clear.store (BitVec.ofNat 32 count) ((packed (given.take count) ++ pad).take maxArgvData)).Delivers given
        supportsArgv ∧
      (info.clear.store (BitVec.ofNat 32 count) ((packed (given.take count) ++ pad).take maxArgvData)).Inside := by
  have length : (given.take count).length = count := List.length_take_of_le bounded
  have some : given.take count ≠ [] := by
    intro none
    rw [none] at length
    exact absurd length (Nat.ne_of_lt positive)
  obtain ⟨behind, front⟩ := @store_packed info.clear _ some pad (BitVec.ofNat 32 count) short
  have small : count ≤ maxArgvData := by
    have counted := @length_le_packed (given.take count)
    omega
  have argc : (BitVec.ofNat 32 count).toNat = count := by
    rw [BitVec.toNat_ofNat]
    apply Nat.mod_eq_of_lt
    rw [maxArgvData] at small
    omega
  have free : ∀ string ∈ (given.take count).map (·.bytes), (0 : Byte) ∉ string := by
    intro string inside
    obtain ⟨argument, -, rfl⟩ := List.mem_map.mp inside
    exact argument.no_nul
  have walked : walk 0 count (packed (given.take count) ++ behind) =
      Option.some ((given.take count).map (·.bytes), behind) := by
    have reads := walk_joined free behind
    rwa [List.length_map, length] at reads
  refine ⟨⟨count, bounded, behind, argc, ?_, rest.imp_right Or.inr⟩, ?_⟩
  · rw [front]
    exact walked
  · constructor
    · refine fun i => store_terminator ?_ (List.length_take_le _ _)
      intro none
      have emptied := congrArg List.length none
      rw [List.length_take, List.length_append, List.length_nil, maxArgvData] at emptied
      have counted := @length_le_packed (given.take count)
      omega
    · rw [front]
      show (walk 0 (BitVec.ofNat 32 count).toNat _).isSome
      rw [argc, walked]
      rfl

/-- Without arguments the program finds none. -/
theorem delivers_clear {given : List CString} {supportsArgv : Bool}
    (none : given = [] ∨ supportsArgv = false ∨ maxArgvData < (packed (given.take 1)).length) :
    ArgvLoad.Delivers given supportsArgv { info := info.clear, terminator := Option.none } := by
  refine ⟨0, Nat.zero_le _, info.clear.argvData, rfl, rfl, none.imp_left ?_⟩
  rintro rfl
  rfl

/-- Nothing is sent: the console takes no arguments, or there is none that fits. -/
theorem delivers_unsent {given : List CString} {count argc : ℕ} {supportsArgv : Bool} (counts : argc = count)
    (unsent : ¬ (0 < argc ∧ supportsArgv = true))
    (rest : count = given.length ∨ maxArgvData < (packed (given.take (count + 1))).length) :
    ArgvLoad.Delivers given supportsArgv { info := info.clear, terminator := Option.none } := by
  apply delivers_clear
  subst counts
  rcases Nat.eq_zero_or_pos argc with rfl | positive
  · exact rest.imp (fun none => List.length_eq_zero_iff.mp none.symm) Or.inr
  · exact Or.inr (Or.inl (Bool.eq_false_iff.mpr fun supports => unsent ⟨positive, supports⟩))

theorem ofNat_ne_zero {count : ℕ} (positive : 0 < count) (small : count < 2 ^ 32) : BitVec.ofNat 32 count ≠ 0#32 := by
  intro none
  have value := congrArg BitVec.toNat none
  rw [BitVec.toNat_ofNat, Nat.mod_eq_of_lt small] at value
  exact absurd value (Nat.ne_of_gt positive)

theorem beUint_be32 (value : Word) (rest : List Byte) : beUint ((be32 value ++ rest).take 4) = value := by
  rw [List.take_left' (length_be32 value)]
  exact ofBe32_extract value

theorem takeUint_uintBytes (value : Word) (rest : List Byte) : takeUint (uintBytes value ++ rest) = some (value, rest) := by
  have room : 4 ≤ (uintBytes value ++ rest).length := by
    rw [List.length_append, Serial.length_uintBytes]
    omega
  rw [takeUint, if_pos room, List.take_left' (Serial.length_uintBytes value), List.drop_left' (Serial.length_uintBytes value),
    Serial.bytesUint_uintBytes]

theorem slice_getD {list : List Byte} : slice (fun i => list.getD i 0) 0 list.length = list := by
  apply List.ext_getElem
  · exact length_slice _ _ _
  · intro i _ inside
    rw [getElem_slice, Nat.zero_add, List.getD_eq_getElem _ _ inside]

/-- Over the network the arguments arrive. -/
theorem networkExecute_delivers (info : ArgvInfo) (argv0 : CString) (args : List CString)
    (supportsArgv isWiiLoader : Bool) (address flags : Word) :
    (networkArgv info (mainArgv argv0 args) supportsArgv isWiiLoader address flags).Delivers (argv0 :: args) supportsArgv ∧
      (networkArgv info (mainArgv argv0 args) supportsArgv isWiiLoader address flags).Inside := by
  obtain ⟨count, bounded, argc, data, short, rest⟩ := mainArgv_spec argv0 args
  obtain ⟨pad, padded, sent⟩ := sendCmd_eq isWiiLoader netCmdExecute address flags
    (fun i => (execData (mainArgv argv0 args) supportsArgv).getD i 0) (execData (mainArgv argv0 args) supportsArgv).length
  have length : ((argv0 :: args).take count).length = count := List.length_take_of_le bounded
  have header : ∀ payload, (netCommand netCmdExecute address flags payload).drop netCommandLen = payload :=
    fun payload => List.drop_left' rfl
  rw [networkArgv, networkExecute, sent, header]
  by_cases send : 0 < (mainArgv argv0 args).argc ∧ supportsArgv = true
  · have exec : execData (mainArgv argv0 args) supportsArgv =
        be32 (BitVec.ofNat 32 count) ++ packed ((argv0 :: args).take count) := by
      have taken := take_progArgvData short
      rw [length] at taken
      rw [execData, if_pos send, argc, data, taken]
    have counted := @length_le_packed ((argv0 :: args).take count)
    rw [maxArgvData] at short
    have whole : min (execData (mainArgv argv0 args) supportsArgv).length (sendBufferLen - netCommandLen - 3) =
        (execData (mainArgv argv0 args) supportsArgv).length := by
      rw [exec, List.length_append, length_be32, sendBufferLen, netCommandLen]
      omega
    rw [whole, slice_getD, exec, List.append_assoc]
    rw [argc] at send
    have positive : (be32 (BitVec.ofNat 32 count) ++ (packed ((argv0 :: args).take count) ++ pad)).length =
        4 + (packed ((argv0 :: args).take count) ++ pad).length := by rw [List.length_append, length_be32]
    have some : 0 < (packed ((argv0 :: args).take count) ++ pad).length := by
      rw [List.length_append]
      omega
    rw [cmdExecuteArgv, if_pos (by omega), beUint_be32, if_pos ⟨ofNat_ne_zero send.1 (by omega), by omega⟩,
      List.drop_left' (length_be32 _)]
    exact delivers_store pad send.1 bounded short rest
  · have exec : execData (mainArgv argv0 args) supportsArgv = [] := by rw [execData, if_neg send]
    rw [exec, cmdExecuteArgv, if_neg]
    · exact ⟨delivers_unsent argc send rest, inside_clear⟩
    · rw [List.length_append, length_slice]
      simp only [List.length_nil, Nat.zero_min]
      omega

/-- The bit of the arguments is set exactly if they follow. -/
theorem consoleFlags_argv (prog : ProgArgv) (supportsArgv consoleEnabled sendFwUpdate : Bool) :
    consoleFlags prog supportsArgv consoleEnabled sendFwUpdate &&& kosloadSerialExecArgv ≠ 0#32 ↔
      0 < prog.argc ∧ supportsArgv = true := by
  rw [consoleFlags]
  by_cases send : 0 < prog.argc ∧ supportsArgv = true
  · rw [if_pos send]
    refine iff_of_true ?_ send
    cases consoleEnabled <;> cases sendFwUpdate <;> decide
  · rw [if_neg send]
    refine iff_of_false ?_ send
    cases consoleEnabled <;> cases sendFwUpdate <;> decide

/-- On the serial line the arguments arrive, and nothing is left. -/
theorem serialExecute_delivers (info : ArgvInfo) (argv0 : CString) (args : List CString)
    (supportsArgv consoleEnabled sendFwUpdate : Bool) : ∃ load,
    serialExecArgv info (serialExecute (mainArgv argv0 args) supportsArgv consoleEnabled sendFwUpdate) =
        some (load, []) ∧ load.Delivers (argv0 :: args) supportsArgv ∧ load.Inside := by
  obtain ⟨count, bounded, argc, data, short, rest⟩ := mainArgv_spec argv0 args
  have length : ((argv0 :: args).take count).length = count := List.length_take_of_le bounded
  have flags := consoleFlags_argv (mainArgv argv0 args) supportsArgv consoleEnabled sendFwUpdate
  rw [serialExecute, serialExecArgv, takeUint_uintBytes]
  simp only [Option.bind_eq_bind, Option.bind_some]
  by_cases send : 0 < (mainArgv argv0 args).argc ∧ supportsArgv = true
  · have dataLen := argvDataLen_progArgvData short
    have taken := take_progArgvData short
    rw [length] at dataLen taken
    have counted := @length_le_packed ((argv0 :: args).take count)
    rw [if_pos (flags.mpr send), if_pos send, argc, data, dataLen, List.append_assoc, takeUint_uintBytes]
    rw [dataLen] at taken
    rw [argc] at send
    have fits : min (BitVec.ofNat 32 (packed ((argv0 :: args).take count)).length).toNat maxArgvData =
        (packed ((argv0 :: args).take count)).length := by
      rw [BitVec.toNat_ofNat]
      rw [maxArgvData] at short ⊢
      omega
    have small : count < 2 ^ 32 := by
      rw [maxArgvData] at short
      omega
    simp only [Option.bind_some]
    rw [if_pos (ofNat_ne_zero send.1 small), takeUint_uintBytes]
    simp only [Option.bind_some]
    rw [fits, taken, if_pos (Nat.le_refl _), List.drop_length, List.take_length]
    have delivers := @delivers_store info (argv0 :: args) count supportsArgv [] send.1 bounded short rest
    rw [List.append_nil, List.take_of_length_le short] at delivers
    exact ⟨_, rfl, delivers⟩
  · have absent : ¬ consoleFlags (mainArgv argv0 args) supportsArgv consoleEnabled sendFwUpdate &&&
        kosloadSerialExecArgv ≠ 0#32 := fun set => send (flags.mp set)
    rw [if_neg absent, if_neg send]
    exact ⟨{ info := info.clear, terminator := none }, rfl, delivers_unsent argc send rest, inside_clear⟩

/-- A program that an `EXEC` over the network starts stays inside exactly if the count fits. -/
theorem network_inside_iff (info : ArgvInfo) (data : List Byte) :
    (cmdExecuteArgv info data).Inside ↔ NetworkArgvFits info data := by
  rw [cmdExecuteArgv, NetworkArgvFits]
  by_cases long : 5 ≤ data.length
  · rw [if_pos long]
    by_cases some : beUint (data.take 4) = 0#32
    · rw [if_neg fun counted => counted.1 some]
      exact iff_of_true inside_clear fun _ counted => absurd some counted
    · rw [if_pos ⟨some, by omega⟩, inside_store_iff (List.length_take_le _ _)]
      exact ⟨fun fits _ _ => fits, fun fits => fits long some⟩
  · rw [if_neg long]
    exact iff_of_true inside_clear fun counted => absurd counted long

theorem takeUint_eq_some {input rest : List Byte} {value : Word} (taken : takeUint input = some (value, rest)) :
    value = bytesUint (input.take 4) ∧ rest = input.drop 4 := by
  rw [takeUint] at taken
  split_ifs at taken
  cases taken
  exact ⟨rfl, rfl⟩

/-- A program that an `EXEC` on the serial line starts stays inside exactly if the count fits. -/
theorem serial_inside_iff {info : ArgvInfo} {input rest : List Byte} {load : ArgvLoad}
    (executed : serialExecArgv info input = some (load, rest)) : load.Inside ↔ SerialArgvFits info input := by
  rw [SerialArgvFits]
  simp only [serialExecArgv, Option.bind_eq_bind, Option.bind_eq_some_iff, Prod.exists] at executed
  obtain ⟨console, behind, taken, executed⟩ := executed
  obtain ⟨rfl, rfl⟩ := takeUint_eq_some taken
  split_ifs at executed with flagged
  · simp only [Option.bind_eq_some_iff, Prod.exists] at executed
    obtain ⟨progArgc, behind, taken, executed⟩ := executed
    obtain ⟨rfl, rfl⟩ := takeUint_eq_some taken
    split_ifs at executed with counted
    · simp only [Option.bind_eq_some_iff, Prod.exists] at executed
      obtain ⟨argvDataLen, behind, taken, executed⟩ := executed
      obtain ⟨rfl, rfl⟩ := takeUint_eq_some taken
      split_ifs at executed with complete
      cases executed
      rw [List.drop_drop, List.drop_drop, inside_store_iff]
      · exact ⟨fun fits _ _ => fits, fun fits => fits flagged counted⟩
      · rw [List.length_take]
        omega
    · cases executed
      exact iff_of_true inside_clear fun _ some => absurd some counted
  · cases executed
    exact iff_of_true inside_clear fun set => absurd set flagged


end Delivery

/-- Over both transports the arguments of the host that fit arrive in order; and whatever an `EXEC` brings, the walk
over as many arguments as it counts stays inside the array exactly if the count fits. -/
theorem argv_intact_and_inside_iff (info : ArgvInfo) (argv0 : CString) (args : List CString)
    (supportsArgv isWiiLoader consoleEnabled sendFwUpdate : Bool) (address flags : Word) (data input : List Byte) :
    ((networkArgv info (mainArgv argv0 args) supportsArgv isWiiLoader address flags).Delivers (argv0 :: args) supportsArgv ∧
      (networkArgv info (mainArgv argv0 args) supportsArgv isWiiLoader address flags).Inside) ∧
    (∃ load, serialExecArgv info (serialExecute (mainArgv argv0 args) supportsArgv consoleEnabled sendFwUpdate) =
        some (load, []) ∧ load.Delivers (argv0 :: args) supportsArgv ∧ load.Inside) ∧
    ((cmdExecuteArgv info data).Inside ↔ NetworkArgvFits info data) ∧
    ∀ load rest, serialExecArgv info input = some (load, rest) → (load.Inside ↔ SerialArgvFits info input) :=
  ⟨networkExecute_delivers info argv0 args supportsArgv isWiiLoader address flags,
    serialExecute_delivers info argv0 args supportsArgv consoleEnabled sendFwUpdate, network_inside_iff info data,
    fun _ _ executed => serial_inside_iff executed⟩

/-- An array without terminators. -/
def fullArgv : ArgvInfo where
  argc := 0
  argvData := List.replicate maxArgvData 1
  length_argvData := List.length_replicate

/-- Three arguments are counted, and one comes. -/
theorem argv_count_trusted : ¬ ∀ (info : ArgvInfo) (data : List Byte), (cmdExecuteArgv info data).Inside := by
  intro inside
  have fits := (network_inside_iff fullArgv [0, 0, 0, 3, 0x61, 0]).mp (inside _ _) (by decide) (by decide)
  exact absurd fits.2 (by decide +kernel)

end KosTool
