import OpenBambu.Json.RoundTrip
import OpenBambu.Tunnel.Envelope

/-!
# Requests and replies of the file commands

The JSON a request carries and what is read out of the JSON of a reply. A member that is
missing or of another kind reads as the default of its accessor; integers come out of
doubles by truncating casts.
-/

namespace OpenBambu.Tunnel

open OpenBambu.Foundation OpenBambu.Json

def kCmdMediaAbility : Nat := 7
def kCmdFileUpload : Nat := 5
def kCmdFileDownload : Nat := 4
def kCmdFileDel : Nat := 3
def kCmdSubFile : Nat := 2
def kCmdListInfo : Nat := 1

/-- An object filled by assignments in this order. -/
def fields (members : List (String × Value)) : Object :=
  members.foldl (fun o p => assign o (ascii p.1) p.2) []

/-- `static_cast<double>` of an unsigned integer, as a value. -/
def count (n : Nat) : Value := .number (Binary64.ofNat n)

/-- A member that is only there when the text is not empty. -/
def unlessEmpty (key : String) (s : Bytes) : List (String × Value) :=
  if s = [] then [] else [(key, .string s)]

/-- The envelope every request is sent in. -/
def requestAbi (cmdtype : Nat) (sequence : UInt32) (req : Object) : Bytes :=
  (Value.object (fields
    [("cmdtype", count cmdtype), ("sequence", count sequence.toNat), ("req", .object req)])).dump

def buildMediaAbilityAbi (sequence : UInt32) : Bytes :=
  requestAbi kCmdMediaAbility sequence
    (fields [("peer", .string (ascii "studio")), ("api_version", count 2)])

def buildFileUploadInitAbi (sequence : UInt32) (destStorage destName : Bytes) (total : UInt64) : Bytes :=
  requestAbi kCmdFileUpload sequence
    (fields ([("type", .string (ascii "model")), ("path", .string destName),
      ("total", count total.toNat)] ++ unlessEmpty "storage" destStorage))

def buildFileDeleteAbi (sequence : UInt32) (destStorage destName : Bytes) : Bytes :=
  requestAbi kCmdFileDel sequence
    (fields ([("delete", .array [.string destName])] ++ unlessEmpty "storage" destStorage))

def buildFileDownloadAbi (sequence : UInt32) (path : Bytes) (offset : UInt64) (targetPath : Bytes) :
    Bytes :=
  requestAbi kCmdFileDownload sequence
    (fields ([("path", .string path), ("offset", count offset.toNat)] ++
      unlessEmpty "target_path" targetPath))

def buildSubFileAbi (sequence : UInt32) (paths : List Bytes) (storage : Bytes) : Bytes :=
  requestAbi kCmdSubFile sequence
    (fields ([("paths", .array (paths.map .string)), ("api_version", count 2),
      ("peer", .string (ascii "studio"))] ++ unlessEmpty "storage" storage))

def buildListInfoAbi (sequence : UInt32) (type storage : Bytes) : Bytes :=
  requestAbi kCmdListInfo sequence
    (fields ([("type", .string type), ("api_version", count 2), ("notify", .string (ascii "DETAIL"))] ++
      unlessEmpty "storage" storage))

/-- The request part of a chunk message. -/
def chunkRequest (fragId : UInt32) (offset : UInt64) (size : UInt32) (fileMd5Lower : Bytes) : Object :=
  fields ([("frag_id", count fragId.toNat), ("offset", count offset.toNat),
    ("size", count size.toNat)] ++ unlessEmpty "file_md5" fileMd5Lower)

def buildFileUploadChunkAbi (sequence fragId : UInt32) (offset : UInt64) (size : UInt32)
    (fileMd5Lower : Bytes) : Bytes :=
  requestAbi kCmdFileUpload sequence (chunkRequest fragId offset size fileMd5Lower)

/-! ## Replies -/

/-- `static_cast<int>` of a 64-bit integer. -/
def toInt (n : Int) : Int := n.bmod (2 ^ 32)

/-- An integer of the reply's envelope, -1 when there is none. -/
def wireMember (key : String) (wireJson : Bytes) : Int :=
  match parse wireJson with
  | .error _ => -1
  | .ok root => toInt ((root.find (ascii key)).asInt (-1))

def parseWireResult (wireJson : Bytes) : Int := wireMember "result" wireJson

def parseWireCmdtype (wireJson : Bytes) : Int := wireMember "cmdtype" wireJson

def parseWireSequence (wireJson : Bytes) : Int := wireMember "sequence" wireJson

def parseWireReplyJson (wireJson : Bytes) : Bytes :=
  match parse wireJson with
  | .error _ => []
  | .ok root =>
      let reply := root.find (ascii "reply")
      if reply.isObject then reply.dump else []

/-- The chunk size in KB and the offset of an accepted reply, and the result in any case. -/
def parseUploadInitReply (wireJson : Bytes) : Int × Option (UInt32 × UInt64) :=
  let rc := parseWireResult wireJson
  if rc ≠ 1 ∧ rc ≠ 19 then (rc, none)
  else
    match parse wireJson with
    | .error _ => (rc, none)
    | .ok root =>
        let reply := root.find (ascii "reply")
        if reply.isObject then
          let kb := UInt32.ofInt ((reply.find (ascii "chunk_size")).asInt 0)
          if kb = 0 then (rc, none)
          else (rc, some (kb, UInt64.ofInt ((reply.find (ascii "offset")).asInt 0)))
        else (rc, none)

/-- Only quotes are escaped here. -/
def quoteStorage (s : Bytes) : Bytes :=
  Ascii.quote :: s.flatMap (fun c =>
    if c = Ascii.quote then [Ascii.backslash, Ascii.quote] else [c]) ++ [Ascii.quote]

/-- The first of the places that lists a storage. -/
def pickStorages (reply : Value) : List Value :=
  let arrays := ["storage", "storage_list", "storages"].map fun key =>
    (reply.find (ascii key)).asArray
  let ability := reply.find (ascii "ability")
  let nested := if ability.isObject then (ability.find (ascii "storage")).asArray else []
  ((arrays ++ [nested]).find? (· ≠ [])).getD []

/-- Empty when the reply is none. -/
def parseAbilityReplyToFtJson (wireJson : Bytes) : Bytes :=
  match parse wireJson with
  | .error _ => []
  | .ok root =>
      let reply := root.find (ascii "reply")
      if toInt ((root.find (ascii "result")).asInt (-1)) ≠ 0 ∨ !reply.isObject then []
      else
        let storages := pickStorages reply
        if storages = [] then []
        else
          Ascii.lbracket ::
            (List.intercalate [Ascii.comma] (storages.map fun v => quoteStorage v.asString)) ++
              [Ascii.rbracket]

/-- A small integer of the envelope is read as it is. -/
theorem wireMember_integer {json : Bytes} {o : Object} {key : String} {n : Int}
    (hp : parse json = .ok (.object o)) (hkey : isWord (ascii key) = true)
    (hn : lookup o (ascii key) = some (.number n)) (hlt : n.natAbs < 2 ^ 31) :
    wireMember key json = n := by
  simp only [wireMember, hp, find_word hkey, Value.asObject, hn, Option.getD_some, Value.asInt,
    toInt64_exact (exact_of_small (show n.natAbs < 2 ^ 53 by omega)), toInt]
  exact Int.bmod_eq_of_le (by omega) (by omega)

theorem wireMember_integers {json : Bytes} {o : List (Bytes × Int)} {key : String} {n : Int}
    (hp : parse json = .ok (.object (integerMembers o))) (hkey : isWord (ascii key) = true)
    (hn : List.lookup (ascii key) o = some n) (hlt : n.natAbs < 2 ^ 31) : wireMember key json = n :=
  wireMember_integer hp hkey (by rw [lookup_integers, hn]; rfl) hlt

end OpenBambu.Tunnel
