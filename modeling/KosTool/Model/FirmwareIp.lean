import KosTool.Model.KosloadTypes
import Mathlib.Data.List.Infix
import Mathlib.Data.List.TakeWhile

/-! # The address in a firmware image

`patch_firmware_ip` and the choice of its argument in `auto_update_firmware` (`firmware_update.c`), the host name
as `network_init` takes it apart, and `set_ip_from_string` of the loader that comes up from the image.
-/

namespace KosTool

open ByteWord

namespace Host

/-- `IP_CONFIG_MAGIC`, "KOSLD_IP". -/
def ipConfigMagic : List Byte := [0x4b, 0x4f, 0x53, 0x4c, 0x44, 0x5f, 0x49, 0x50]
def ipConfigMagicLen : ℕ := 8
def ipConfigIpLen : ℕ := 16

/-- "0.0.0.0". -/
def dhcpSentinel : CString where
  bytes := [0x30, 0x2e, 0x30, 0x2e, 0x30, 0x2e, 0x30]
  no_nul := by decide

/-- "dcload". -/
def legacyName : List Byte := [0x64, 0x63, 0x6c, 0x6f, 0x61, 0x64]

/-- The search of `patch_firmware_ip`, from an index on. -/
def findIpConfig (fwData : Buffer) (fwSize : ℕ) : ℕ → ℕ → Option ℕ
  | 0, _ => none
  | fuel + 1, i =>
    if i + ipConfigMagicLen + ipConfigIpLen ≤ fwSize then
      if slice fwData i ipConfigMagicLen = ipConfigMagic then some (i + ipConfigMagicLen)
      else findIpConfig fwData fwSize fuel (i + 1)
    else none

/-- Where the address of an image is; an image has fewer places for it than bytes. -/
def ipField (fwData : Buffer) (fwSize : ℕ) : Option ℕ := findIpConfig fwData fwSize fwSize 0

/-- What `strncpy` writes: the string as far as it fits, filled up with zeros. -/
def strncpy (source : CString) (count : ℕ) : List Byte := (source.bytes ++ List.replicate count 0).take count

/-- `patch_firmware_ip`. -/
def patchFirmwareIp (fwData : Buffer) (fwSize : ℕ) (ipStr : CString) : Option Buffer :=
  (ipField fwData fwSize).map fun field =>
    storeAt (storeAt fwData field (List.replicate ipConfigIpLen 0)) field (strncpy ipStr (ipConfigIpLen - 1))

/-- What `auto_update_firmware` knows of the loader it is about to replace. -/
structure RemoteLoader where
  isSerial : Bool
  remoteCapabilities : Word
  remoteName : List Byte
  /-- What the probe of the loader's memory has read, if it has. -/
  loaderMem : Option (List Byte)

/-- `patch_ip` and `dhcp_reconnect`; `none` when the update is skipped, and no address for a null pointer. -/
def RemoteLoader.patchIp (remote : RemoteLoader) (hostname : CString) : Option (Option CString × Bool) :=
  if remote.isSerial then some (none, false)
  else if remote.remoteCapabilities ≠ 0 then some (some hostname, false)
  else if legacyName <:+: remote.remoteName then
    match remote.loaderMem with
    | none => none
    | some mem =>
      if dhcpSentinel.bytes ++ [0] <:+: mem then some (some dhcpSentinel, true) else some (some hostname, false)
  else some (none, false)

/-- The host in front of a port, as `network_init` cuts it off. -/
def hostCopy (hostname : CString) : List Byte := hostname.bytes.takeWhile (· ≠ 0x3a)

/-- The address `network_init` connects to, with the resolver it asks. -/
def networkInit (gethostbyname : List Byte → Option Word) (hostname : CString) : Option Word :=
  gethostbyname (hostCopy hostname)

end Host

namespace Client

/-- The loop of `set_ip_from_string` over the characters, with the memory from `our_ip` on; `none` when it runs
past the end of the array. -/
def parseIp : List Byte → ℕ → Buffer → Option Buffer
  | [], _, _ => none
  | s :: rest, i, ip =>
    if s = 0 then some ip
    else if s = 0x2e then parseIp rest (i + 1) ip
    else parseIp rest i (Function.update ip i (ip i * 10 + (s - 0x30)))

/-- `set_ip_from_string`: what `our_ip` is afterwards. -/
def setIpFromString (order : ByteOrder) (ipConfig : List Byte) (ip : Buffer) : Option Word :=
  if ip 3 ≠ 0 then some (order.load32 ip 0)
  else (parseIp ipConfig 0 ip).map fun parsed => order.htonl (order.load32 parsed 0)

end Client

end KosTool
