import HotIndex.Core.Types
import HotIndex.Lib.RustText

/-!
# Addresses

`address.rs`: the canonical form of an Aptos address.
-/

namespace HotIndex

open Lib RustText

/-- `normalize_aptos_address`. Lengths are in bytes, as `str::len` counts them. -/
def normalizeAptosAddress (input : String) : Except HotIndexError String :=
  let trimmed := trim input
  let hex := ((stripPrefix trimmed "0x").or (stripPrefix trimmed "0X")).getD trimmed
  if hex.isEmpty then .error (.address "address is empty")
  else if hex.utf8ByteSize > 64 then
    .error (.address s!"address has {hex.utf8ByteSize} hex chars, maximum is 64")
  else if !hex.toList.all isAsciiHexdigit then
    .error (.address s!"address contains non-hex characters: {input}")
  else .ok ("0x" ++ padLeftZeros 64 (toAsciiLowercase hex))

/-- `ZERO_ADDRESS` -/
def zeroAddress : String := "0x0000000000000000000000000000000000000000000000000000000000000000"

/-- `is_zero_address` -/
def isZeroAddress (value : String) : Bool :=
  match normalizeAptosAddress value with
  | .ok normalized => normalized == zeroAddress
  | .error _ => false

end HotIndex
