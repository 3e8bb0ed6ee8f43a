import Poseidon.Lib.CString
import Poseidon.Lib.Compaction
import Poseidon.Lib.Tables

/-!
# Subtopics

A channel's messages may carry a subtopic, a path of segments between slashes. The table of a
channel holds the paths it is subscribed to, and a message is delivered if one of them matches.
-/

namespace Poseidon

def subtopicSeparator : UInt8 := 47

/-- The loop of `subtopic_matches` that leaves trailing separators out of the length. -/
def trimLength (subscription : Bytes) : Nat → Nat
  | 0 => 0
  | length + 1 =>
      if subscription[length]? = some subtopicSeparator then trimLength subscription length
      else length + 1

def subtopicMatches (message subscription : Bytes) : Bool :=
  if subscription.isEmpty then true
  else
    let subLen := trimLength subscription subscription.length
    if message.length < subLen then false
    else if message.take subLen != subscription.take subLen then false
    else if message.length = subLen then true
    else message[subLen]? == some subtopicSeparator

structure SubtopicEntry where
  path : CString 512
  ttl : UInt32
deriving DecidableEq, Repr

def maxSubtopicSubs : Nat := 64

structure SubtopicTable where
  entries : List SubtopicEntry
  length_le : entries.length ≤ maxSubtopicSubs
deriving DecidableEq, Repr

namespace SubtopicTable

def create : SubtopicTable :=
  ⟨[], Nat.zero_le _⟩

/-- `subtopic_table_subscribe`, with its return code. A path that is too long is cut. -/
def subscribe (table : SubtopicTable) (path : Bytes) (ttl : UInt32) : Int × SubtopicTable :=
  match table.entries.findIdx? fun entry => entry.path.bytes == path with
  | some index =>
      (0, ⟨table.entries.modify index fun entry => { entry with ttl := ttl }, by
        rw [List.length_modify]
        exact table.length_le⟩)
  | none =>
      if hfree : table.entries.length < maxSubtopicSubs then
        (0, ⟨table.entries ++ [⟨CString.copy 511 path, ttl⟩], by
          rw [List.length_append]
          exact hfree⟩)
      else (-1, table)

/-- `subtopic_table_unsubscribe`, with its return code. -/
def unsubscribe (table : SubtopicTable) (path : Bytes) : Int × SubtopicTable :=
  match table.entries.findIdx? fun entry => entry.path.bytes == path with
  | some index =>
      (0, ⟨swapRemove table.entries index,
        Nat.le_trans (length_swapRemove_le _ _) table.length_le⟩)
  | none => (-1, table)

def isSubscribed (table : SubtopicTable) (path : Bytes) : Bool :=
  table.entries.any fun entry => entry.path.bytes == path

def shouldDeliver (table : SubtopicTable) (message : Bytes) : Bool :=
  table.entries.any fun entry => subtopicMatches message entry.path.bytes

/-- The decrement in `subtopic_table_tick`. -/
def age (entry : SubtopicEntry) : SubtopicEntry :=
  if entry.ttl > 0 then { entry with ttl := entry.ttl - 1 } else entry

/-- `subtopic_table_tick`: the entries are aged in their places, and those with time left moved to
the front. -/
def tick (table : SubtopicTable) : SubtopicTable :=
  ⟨Compaction.compactChanged age (fun entry => entry.ttl > 0) table.entries,
    Nat.le_trans (Compaction.length_compactChanged_le _ _ _) table.length_le⟩

end SubtopicTable

end Poseidon
