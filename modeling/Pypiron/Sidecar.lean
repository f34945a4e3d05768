import Mathlib.Data.String.Basic

/-! Metadata sidecars: the typed content of `<filename>.meta.json`, and the
normal form of a yank. Field names follow the stored schema; `u64` counters are
natural numbers, since nothing here adds to one. -/
namespace Pypiron

abbrev Bytes := List UInt8

/-- PEP 592 yank state: `false`, `true`, or a reason string. -/
inductive Yanked where
  | flag (yanked : Bool)
  | reason (text : String)
  deriving DecidableEq, Repr

/-- The Unicode `White_Space` property, which `str::trim` strips. -/
def isWhiteSpace (c : Char) : Bool :=
  let n := c.toNat
  (9 ≤ n && n ≤ 13) || n == 0x20 || n == 0x85 || n == 0xA0 || n == 0x1680 ||
    (0x2000 ≤ n && n ≤ 0x200A) || n == 0x2028 || n == 0x2029 || n == 0x202F ||
    n == 0x205F || n == 0x3000

def trim (text : String) : String :=
  String.ofList ((text.toList.dropWhile isWhiteSpace).reverse.dropWhile isWhiteSpace).reverse

/-- The canonical form the upload and yank endpoints store: a reason is trimmed,
and an empty one collapses to a bare `true`. -/
def Yanked.normalized : Yanked → Yanked
  | .reason text => if trim text = "" then .flag true else .reason (trim text)
  | .flag yanked => .flag yanked

/-- A provider-native content checksum bound to bytes already verified. -/
structure StoreChecksum where
  algo : String
  value : String
  deriving DecidableEq, Repr

structure Sidecar where
  sha256 : String
  size : Nat
  version : String
  uploadTime : String
  uploadEpochMs : Option Nat
  requiresPython : Option String
  yanked : Yanked
  origin : Option String
  yankEpoch : Nat
  uploadTimeRevision : Nat
  snapshot : Bool
  storeChecksum : Option StoreChecksum
  deriving DecidableEq, Repr

/-! ### The stored form -/

def hexDigit (n : Nat) : Char := "0123456789abcdef".toList.getD n '0'

/-- The escapes of `serde_json`: the short ones, and `\u00..` for the other
control characters. -/
def jsonChar (c : Char) : List Char :=
  if c = '"' then ['\\', '"']
  else if c = '\\' then ['\\', '\\']
  else if c = '\n' then ['\\', 'n']
  else if c = '\r' then ['\\', 'r']
  else if c = '\t' then ['\\', 't']
  else if c.toNat = 8 then ['\\', 'b']
  else if c.toNat = 12 then ['\\', 'f']
  else if c.toNat < 32 then ['\\', 'u', '0', '0', hexDigit (c.toNat / 16), hexDigit (c.toNat % 16)]
  else [c]

def jsonString (text : String) : String :=
  "\"" ++ String.ofList (text.toList.flatMap jsonChar) ++ "\""

def jsonObject (fields : List (String × String)) : String :=
  "\x7b" ++ ",".intercalate (fields.map fun field => jsonString field.1 ++ ":" ++ field.2) ++ "\x7d"

def Yanked.json : Yanked → String
  | .flag yanked => if yanked then "true" else "false"
  | .reason text => jsonString text

/-- `serde_json::to_vec`, before its UTF-8 encoding. Absent options, zero
revisions and a false snapshot bit are not written. -/
def Sidecar.json (sc : Sidecar) : String :=
  jsonObject (
    [("sha256", jsonString sc.sha256), ("size", toString sc.size),
      ("version", jsonString sc.version), ("upload-time", jsonString sc.uploadTime)] ++
    (sc.uploadEpochMs.map fun ms => ("upload-epoch-ms", toString ms)).toList ++
    (sc.requiresPython.map fun text => ("requires-python", jsonString text)).toList ++
    [("yanked", sc.yanked.json)] ++
    (sc.origin.map fun text => ("origin", jsonString text)).toList ++
    (if sc.yankEpoch = 0 then [] else [("yank-epoch", toString sc.yankEpoch)]) ++
    (if sc.uploadTimeRevision = 0 then []
      else [("upload-time-revision", toString sc.uploadTimeRevision)]) ++
    (if sc.snapshot then [("snapshot", "true")] else []) ++
    (sc.storeChecksum.map fun checksum => ("store-checksum",
      jsonObject [("algo", jsonString checksum.algo), ("value", jsonString checksum.value)])).toList)

def isYanked (sc : Sidecar) : Bool := sc.yanked.normalized != .flag false

end Pypiron
