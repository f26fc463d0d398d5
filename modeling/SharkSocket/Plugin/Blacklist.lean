import SharkSocket.Core
import SharkSocket.Lib.Ip

/-!
# `plugin/blacklist.go`: addresses that may not connect

A block list is a set of addresses, kept in their normal text form, and a list of
networks.  `parseBlacklist` reads one strictly: an entry that is neither an address
nor a network fails the whole list.  `newBlacklist` skips such entries instead, so
the two agree on every list that `validateBlacklist` passes
(`newBlacklist_of_parse`).
-/

namespace SharkSocket.Plugin

open Lib
open Std (ExtTreeMap)

structure BlacklistSet where
  exact : ExtTreeMap Bytes Unit
  nets : List IPNet

/-- `set` is read and swapped as a whole. -/
structure Blacklist where
  set : BlacklistSet

def normalizeIP (host : Bytes) : Bytes :=
  match parseIP host with
  | none => host
  | some ip => ipString ((to4 ip).getD ip)

namespace BlacklistSet

def empty : BlacklistSet := ⟨∅, []⟩

/-- What both loops do with an entry that parses; `none` if it does not. -/
def addEntry (set : BlacklistSet) (entry : Bytes) : Option BlacklistSet :=
  if entry = [] then some set
  else
    match parseCIDR entry with
    | some cidr => some { set with nets := set.nets ++ [cidr] }
    | none =>
      match parseIP entry with
      | none => none
      | some _ => some { set with exact := set.exact.insert (normalizeIP entry) () }

/-- The loop of `parseBlacklist`. -/
def addAll (set : BlacklistSet) : List Bytes → Except (List Piece) BlacklistSet
  | [] => .ok set
  | entry :: rest =>
    match set.addEntry entry with
    | none =>
      .error [.text "blacklist entry ", .quoted entry, .text " is neither an IP nor a CIDR"]
    | some set => set.addAll rest

/-- The loop of `parseBlacklistBestEffort`. -/
def addValid (set : BlacklistSet) : List Bytes → BlacklistSet
  | [] => set
  | entry :: rest => ((set.addEntry entry).getD set).addValid rest

end BlacklistSet

def parseBlacklist (entries : List Bytes) : Except (List Piece) BlacklistSet :=
  BlacklistSet.empty.addAll entries

def parseBlacklistBestEffort (entries : List Bytes) : BlacklistSet :=
  BlacklistSet.empty.addValid entries

def newBlacklist (entries : List Bytes) : Blacklist :=
  match parseBlacklist entries with
  | .ok set => ⟨set⟩
  | .error _ => ⟨parseBlacklistBestEffort entries⟩

def validateBlacklist (entries : List Bytes) : Except (List Piece) Unit :=
  (parseBlacklist entries).map fun _ => ()

/-- `Replace`: the error, and the block list after the call. -/
def Blacklist.replace (p : Blacklist) (entries : List Bytes) : Option (List Piece) × Blacklist :=
  match parseBlacklist entries with
  | .error e => (some e, p)
  | .ok set => (none, ⟨set⟩)

theorem newBlacklist_of_parse {entries : List Bytes} {set : BlacklistSet}
    (h : parseBlacklist entries = .ok set) : newBlacklist entries = ⟨set⟩ := by
  rw [newBlacklist, h]

theorem replace_of_parse {entries : List Bytes} {set : BlacklistSet}
    (h : parseBlacklist entries = .ok set) (p : Blacklist) : p.replace entries = (none, ⟨set⟩) := by
  rw [Blacklist.replace, h]

/-- **The two parsers agree**: a list that passes the check can be installed. -/
theorem validateBlacklist_eq_ok {entries : List Bytes} :
    validateBlacklist entries = .ok () ↔ ∃ set, parseBlacklist entries = .ok set := by
  unfold validateBlacklist
  cases parseBlacklist entries with
  | error e | ok set => simp [Except.map]

end SharkSocket.Plugin
