import Lankeeper.Lib.Json
import Lankeeper.Backup.Import
import Lankeeper.DNS.Blocklist

/-!
# Lankeeper.Agent.Requests — file writes as JSON-RPC requests

`netutil.WriteFile` of `internal/netutil/exec.go` sends a file to the root agent in one
request, as `Client.newRequest` of `internal/agent/client.go` builds it: the body is a JSON
string where it is valid UTF-8, and base64 otherwise. The agent takes no request longer
than `defaultMaxFrameBytes`.

The callers have limits of their own, in other packages and above that one. An imported
member may have ten times as many bytes, and a blocklist is not limited at all.
`fileWrite_fits_iff` says which bodies get through.
-/

namespace Lankeeper.Agent

open Lib Text Json List

/-- One JSON-RPC request, in `internal/agent/server.go`. -/
def defaultMaxFrameBytes : Nat := 1 <<< 20

/-- The arguments of `netutil.WriteFile`. -/
structure FileWrite where
  path : Text
  content : Bytes
  mode : Nat

/-- A number without sign. -/
def jsonNat (n : Nat) : Bytes :=
  (Nat.toDigits 10 n).map fun c => UInt8.ofNat c.toNat

/-- The fields `content` and `contentBytes` of `fileWriteParams`. -/
def jsonContent (content : Bytes) : Bytes :=
  if utf8Valid content then ascii "\"content\":" ++ jsonString (ofBytes content)
  else ascii "\"content\":\"\",\"contentBytes\":\"" ++ base64 content ++ ascii "\""

def fileWriteParams (w : FileWrite) : Bytes :=
  ascii "\x7b\"path\":" ++ jsonString w.path ++ ascii "," ++ jsonContent w.content ++
    ascii ",\"mode\":" ++ jsonNat w.mode ++ ascii ",\"mkdirp\":true\x7d"

/-- The request as it is sent. `WriteFile` calls without a deadline, so that there is no
`timeoutMs`. -/
def fileWriteRequest (id : Nat) (w : FileWrite) : Bytes :=
  ascii "\x7b\"jsonrpc\":\"2.0\",\"method\":\"file.write\",\"params\":" ++ fileWriteParams w ++
    ascii ",\"id\":" ++ jsonNat id ++ ascii "\x7d"

/-- The request is no longer than the agent takes. -/
def Fits (id : Nat) (w : FileWrite) : Prop :=
  (fileWriteRequest id w).length ≤ defaultMaxFrameBytes

/-- `/etc/unbound/blocklist.conf`. -/
def blocklistPath : Text := "/etc/unbound/blocklist.conf"

/-- What the limits of the callers let through: a member of an imported archive, and the
blocklist made of the downloads. -/
inductive WritePermitted : FileWrite → Prop
  | member (target : Text) (data : Bytes) (h : data.length ≤ Backup.maxImportEntryBytes) :
      WritePermitted ⟨target, data, Backup.restoreFileMode⟩
  | blocklist (r : DNS.Refresh) :
      WritePermitted ⟨blocklistPath, utf8 (DNS.blocklistText r.allDomains), 0o644⟩

/-! ## The length of a request -/

/-- The bytes of the encoded body, quotes and `contentBytes` included. -/
def contentWidth (content : Bytes) : Nat :=
  if utf8Valid content then textWidth (ofBytes content) + 2
  else 4 * ((content.length + 2) / 3) + 20

def digits (n : Nat) : Nat :=
  (Nat.toDigits 10 n).length

theorem length_ascii (s : String) : (ascii s).length = s.toList.length :=
  length_map ..

theorem length_jsonContent (content : Bytes) :
    (jsonContent content).length = 10 + contentWidth content := by
  unfold jsonContent contentWidth
  split
  · rw [length_append, length_jsonString, length_ascii]
    rfl
  · rw [length_append, length_append, length_base64, length_ascii, length_ascii]
    have hfield : "\"content\":\"\",\"contentBytes\":\"".toList.length = 29 := rfl
    have hquote : "\"".toList.length = 1 := rfl
    omega

theorem length_fileWriteRequest (id : Nat) (w : FileWrite) :
    (fileWriteRequest id w).length =
      textWidth w.path + contentWidth w.content + digits w.mode + digits id + 99 := by
  have hmethod : "\x7b\"jsonrpc\":\"2.0\",\"method\":\"file.write\",\"params\":".toList.length = 48 := rfl
  have hpath : "\x7b\"path\":".toList.length = 8 := rfl
  have hmode : ",\"mode\":".toList.length = 8 := rfl
  have hmkdirp : ",\"mkdirp\":true\x7d".toList.length = 15 := rfl
  have hid : ",\"id\":".toList.length = 6 := rfl
  have hcomma : ",".toList.length = 1 := rfl
  have hclose : "\x7d".toList.length = 1 := rfl
  simp only [fileWriteRequest, fileWriteParams, length_append, length_ascii,
    length_jsonString, length_jsonContent, jsonNat, length_map, digits]
  omega

/-- A file gets through to the agent exactly if its encoding leaves room for the rest of
the request. -/
theorem fileWrite_fits_iff (id : Nat) (w : FileWrite) :
    Fits id w ↔
      textWidth w.path + contentWidth w.content + digits w.mode + digits id ≤ 1048477 := by
  unfold Fits
  rw [length_fileWriteRequest]
  have hmax : defaultMaxFrameBytes = 1048576 := rfl
  omega

/-- Plain letters are sent as they are. -/
theorem le_contentWidth_replicate (n : Nat) : n ≤ contentWidth (replicate n 0x61) := by
  have hrunes : ofBytes (replicate n (0x61 : UInt8)) = replicate n 'a' := by
    rw [ofBytes, length_replicate]
    exact runesUpTo_replicate (by decide) n
  have hwidth : runeWidth 'a' = 1 := by decide
  unfold contentWidth
  split
  · rw [hrunes, textWidth_replicate, hwidth]
    omega
  · rw [length_replicate]
    omega

/-- A text of one MiB, as a member of an archive. -/
def largeMember : FileWrite where
  path := blocklistPath
  content := replicate 1048576 0x61
  mode := Backup.restoreFileMode

/-- The import takes the member, and the agent does not. -/
theorem large_member_refused : WritePermitted largeMember ∧ ∀ id, ¬ Fits id largeMember := by
  constructor
  · refine WritePermitted.member _ _ ?_
    rw [length_replicate]
    decide
  · intro id hfits
    have hwidth : 1048576 ≤ contentWidth largeMember.content := le_contentWidth_replicate 1048576
    have hmax : defaultMaxFrameBytes = 1048576 := rfl
    unfold Fits at hfits
    rw [length_fileWriteRequest] at hfits
    omega

end Lankeeper.Agent
