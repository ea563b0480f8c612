import KosTool.Model.Client.Commands

/-! # The channel between host and console

What `send_cmd` of `host/src/transport/network.c` puts on the wire, the datagrams on their way in both
directions, and what the console makes of one that arrives. A channel never forgets a datagram, so
delivering any of them at any time covers loss, duplication, delay and reordering.
-/

namespace KosTool.Host

open ByteWord Protocol

def sendBufferLen : ℕ := 2048
def receiveBufferLen : ℕ := 2048

/-- `send_cmd`: data that does not fit is cut off, and the Wii gets whole words. -/
def sendCmd (isWiiLoader : Bool) (cmd address size : Word) (data : Buffer) (dsize : ℕ) : List Byte :=
  let payload := netCommand cmd address size (slice data 0 (min dsize (sendBufferLen - netCommandLen - 3)))
  if isWiiLoader then payload ++ List.replicate ((payload.length + 3) / 4 * 4 - payload.length) 0 else payload

/-- A datagram on its way to the console; left over if the host sent it before the transfer. -/
structure ToConsole where
  payload : List Byte
  leftOver : Bool

/-- A datagram on its way to the host; current if it answers the transfer. -/
structure ToHost where
  payload : List Byte
  current : Bool

/-- The payloads a handler sends. -/
def transmitted (effects : List Client.Effect) : List (List Byte) :=
  effects.filterMap fun
    | .tx payload => some payload
    | _ => none

theorem transmitted_map_tx (payloads : List (List Byte)) :
    transmitted (payloads.map Client.Effect.tx) = payloads := by
  simp only [transmitted, List.filterMap_map, Function.comp_def, List.filterMap_some]

/-- The handler starts a program or restarts the console. -/
def leavesLoop (effects : List Client.Effect) : Bool :=
  effects.any fun
    | .execute _ | .reboot => true
    | _ => false

/-- An undamaged datagram at a place of the receive memory. -/
def wireUdp (frame : ℕ) (payload : List Byte) : Client.Udp :=
  { length := BitVec.ofNat 16 (Client.udpHeaderLen + payload.length), checksumMatches := true, data := frame }

/-- What the console makes of a datagram. -/
def processed (target : Client.Target) (loader : Client.Loader) (payload : List Byte) (frame now : ℕ) :
    Client.Loader × List Client.Effect :=
  (loader.receive frame payload).processUdp target (wireUdp frame payload) now

/-- The datagram, stored at its place, is a command with this id. -/
def isCommand (loader : Client.Loader) (payload : List Byte) (frame : ℕ) (id : Word) : Bool :=
  (loader.receive frame payload).Takes (wireUdp frame payload) id

section Wire

open Client

variable (isWiiLoader : Bool) (cmd address size : Word) (data : Buffer) (dsize : ℕ)

/-- On the wire a command may be followed by a few bytes of padding. -/
theorem sendCmd_eq : ∃ pad : List Byte, pad.length ≤ 3 ∧ sendCmd isWiiLoader cmd address size data dsize =
    netCommand cmd address size (slice data 0 (min dsize (sendBufferLen - netCommandLen - 3)) ++ pad) := by
  unfold sendCmd
  cases isWiiLoader with
  | true =>
    refine ⟨_, ?_, netCommand_append _ _ _ _ _⟩
    rw [List.length_replicate]
    omega
  | false => exact ⟨[], Nat.zero_le _, by rw [List.append_nil]; rfl⟩

theorem length_sendCmd_le : (sendCmd isWiiLoader cmd address size data dsize).length ≤ 2048 := by
  obtain ⟨pad, short, wire⟩ := sendCmd_eq isWiiLoader cmd address size data dsize
  rw [wire, length_netCommand, List.length_append, length_slice]
  simp only [sendBufferLen, netCommandLen]
  omega

/-- The receive memory holds the command at the datagram's place, and `process_udp` lets it through. -/
structure Delivers (loader : Loader) (udp : Udp) : Prop where
  takes : loader.Takes udp cmd
  address : commandAddress loader.rx udp.data = address
  size : commandSize loader.rx udp.data = size
  data : ∀ i < dsize, loader.rx (commandData udp.data + i) = data i

/-- What a host sends gets through `process_udp`. -/
theorem takes_sendCmd (loader : Loader) (frame : ℕ) :
    (loader.receive frame (sendCmd isWiiLoader cmd address size data dsize)).Takes
      (wireUdp frame (sendCmd isWiiLoader cmd address size data dsize)) cmd := by
  have bounded := length_sendCmd_le isWiiLoader cmd address size data dsize
  obtain ⟨pad, -, wire⟩ := sendCmd_eq isWiiLoader cmd address size data dsize
  refine ⟨?_, rfl, ?_⟩
  · simp only [wireUdp, BitVec.toNat_ofNat, udpHeaderLen]
    omega
  · rw [wire]
    exact commandId_storeAt _ _ _ _ _ _

/-- What a host sends is delivered. -/
theorem delivers_sendCmd (loader : Loader) (frame : ℕ) (short : dsize ≤ 1440) :
    Delivers cmd address size data dsize
      (loader.receive frame (sendCmd isWiiLoader cmd address size data dsize))
      (wireUdp frame (sendCmd isWiiLoader cmd address size data dsize)) := by
  obtain ⟨pad, -, wire⟩ := sendCmd_eq isWiiLoader cmd address size data dsize
  have room : min dsize (sendBufferLen - netCommandLen - 3) = dsize := Nat.min_eq_left (by
    simp only [sendBufferLen, netCommandLen]
    omega)
  have inMemory : (loader.receive frame (sendCmd isWiiLoader cmd address size data dsize)).rx =
      storeAt loader.rx frame (netCommand cmd address size (slice data 0 dsize ++ pad)) := by
    rw [wire, room]
    rfl
  refine ⟨takes_sendCmd isWiiLoader cmd address size data dsize loader frame, ?_, ?_, fun i inside => ?_⟩
  · rw [inMemory, wireUdp, commandAddress_storeAt]
  · rw [inMemory, wireUdp, commandSize_storeAt]
  · have within : i < (slice data 0 dsize).length := by rw [length_slice]; exact inside
    have stored : i < (slice data 0 dsize ++ pad).length := by rw [List.length_append]; omega
    rw [inMemory, wireUdp, commandData_storeAt _ _ _ _ _ _ stored, List.getElem_append_left within,
      getElem_slice, Nat.zero_add]

end Wire

end KosTool.Host
