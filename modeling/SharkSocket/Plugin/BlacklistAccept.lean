import SharkSocket.Lib.HostPort
import SharkSocket.Lib.IpNet
import SharkSocket.Lib.Keys
import SharkSocket.Plugin.Blacklist

/-!
# `Blacklist.OnAccept`: what a block list blocks

`OnAccept` takes the host out of the remote address, brings it into its normal text form
and looks it up, first among the addresses and then in the networks.  A `RemoteAddr` is a
remote address with an IP literal for its host: with or without a port, with or without a
zone.

* `normalizeIP_eq_iff`: normal forms are equal exactly if the addresses are;
* `mem_of_addAll`: what the entries put into the set;
* `blocks_iff`: the verdict on a literal, read off the set;
* `RemoteAddr.zone_of_text`, `not_blocks_of_zone`: an address with a zone is no literal for
  `net.ParseIP`, and passes;
* `blacklist_blocks_listed`: a list blocks what it lists, whatever form the address has, but
  for addresses with a zone (`onAccept_zone`).
-/

namespace SharkSocket.Plugin

open Lib
open Std (ExtTreeMap)

/-- `OnAccept`; the argument is the text of the remote address, if there is one. -/
def Blacklist.onAccept (p : Blacklist) (remote : Option Bytes) : Option Err :=
  match remote with
  | none => none
  | some addr =>
    let host := normalizeIP ((splitHost addr).getD addr)
    if host ∈ p.set.exact then some .pluginBlock
    else
      match parseIP host with
      | none => none
      | some ip => if p.set.nets.any (·.contains ip) then some .pluginBlock else none

/-! ### Normal forms -/

theorem normalizeIP_of_parseIP {host ip : Bytes} (h : parseIP host = some ip) :
    normalizeIP host = ipString (reduceIP ip) := by
  rw [normalizeIP, h]
  rfl

/-- The normal form stands for the same address. -/
theorem parseIP_normalizeIP {host ip : Bytes} (h : parseIP host = some ip) :
    parseIP (normalizeIP host) = some (to16 (reduceIP ip)) := by
  rw [normalizeIP_of_parseIP h, parseIP_ipString (reduced_reduceIP (length_parseIP h))]

theorem normalizeIP_eq_iff {host host' ip ip' : Bytes} (h : parseIP host = some ip)
    (h' : parseIP host' = some ip') :
    normalizeIP host = normalizeIP host' ↔ reduceIP ip = reduceIP ip' := by
  constructor
  · intro heq
    have hparse := parseIP_normalizeIP h
    rw [heq, parseIP_normalizeIP h'] at hparse
    rw [← reduceIP_to16 (reduced_reduceIP (length_parseIP h)), ← Option.some.inj hparse,
      reduceIP_to16 (reduced_reduceIP (length_parseIP h'))]
  · intro heq
    rw [normalizeIP_of_parseIP h, normalizeIP_of_parseIP h', heq]

/-! ### The entries of a list -/

/-- An entry with a slash in it is no address. -/
theorem parseIP_of_parseCIDR {entry : Bytes} {net : IPNet} (h : parseCIDR entry = some net) :
    parseIP entry = none := by
  have hslash : 0x2f ∈ entry := by
    unfold parseCIDR at h
    split at h
    · cases h
    rename_i i hi
    by_contra hnot
    rw [List.idxOf?_eq_none_iff.mpr hnot] at hi
    cases hi
  cases hip : parseIP entry with
  | none => rfl
  | some ip => exact absurd hslash (notMem_of_parseIP hip (by decide))

/-- An entry that both loops take. -/
def ValidEntry (entry : Bytes) : Prop :=
  entry = [] ∨ (parseCIDR entry).isSome = true ∨ (parseIP entry).isSome = true

variable {set : BlacklistSet} {entries : List Bytes} {p p' : Blacklist}

theorem addEntry_eq_none {entry : Bytes} : set.addEntry entry = none ↔ ¬ ValidEntry entry := by
  unfold BlacklistSet.addEntry ValidEntry
  by_cases hnil : entry = []
  · simp [hnil]
  rw [if_neg hnil]
  cases parseCIDR entry with
  | some net => simp
  | none =>
    cases parseIP entry with
    | none => simp [hnil]
    | some ip => simp

/-- What one entry adds. -/
theorem mem_of_addEntry {set set' : BlacklistSet} {entry : Bytes}
    (h : set.addEntry entry = some set') : (∀ text, text ∈ set'.exact ↔
      text ∈ set.exact ∨ ∃ ip, parseIP entry = some ip ∧ normalizeIP entry = text) ∧
    ∀ net, net ∈ set'.nets ↔ net ∈ set.nets ∨ parseCIDR entry = some net := by
  unfold BlacklistSet.addEntry at h
  split at h
  · rename_i hnil
    cases h
    subst hnil
    have hip : parseIP [] = none := rfl
    have hcidr : parseCIDR [] = none := rfl
    simp [hip, hcidr]
  split at h
  · rename_i net hnet
    cases h
    have hip := parseIP_of_parseCIDR hnet
    simp [hip, hnet, eq_comm]
  rename_i hcidr
  split at h
  · cases h
  rename_i ip hip
  cases h
  refine ⟨fun text => ?_, fun net => by simp [hcidr]⟩
  rw [mem_insert_iff]
  simp [hip, or_comm, eq_comm]

/-- **What the entries put into the set.** -/
theorem mem_of_addAll : ∀ {entries : List Bytes} {set set' : BlacklistSet},
    set.addAll entries = .ok set' → (∀ text, text ∈ set'.exact ↔ text ∈ set.exact ∨
      ∃ entry ∈ entries, ∃ ip, parseIP entry = some ip ∧ normalizeIP entry = text) ∧
    ∀ net, net ∈ set'.nets ↔ net ∈ set.nets ∨ ∃ entry ∈ entries, parseCIDR entry = some net := by
  intro entries
  induction entries with
  | nil =>
    intro set set' h
    cases h
    simp
  | cons entry entries ih =>
    intro set set' h
    rw [BlacklistSet.addAll] at h
    split at h
    · cases h
    rename_i next hnext
    obtain ⟨hexact, hnets⟩ := ih h
    obtain ⟨hexact1, hnets1⟩ := mem_of_addEntry hnext
    constructor
    · intro text
      rw [hexact, hexact1, List.exists_mem_cons_iff, or_assoc]
    · intro net
      rw [hnets, hnets1, List.exists_mem_cons_iff, or_assoc]

theorem addAll_ok_iff :
    (∃ set', set.addAll entries = .ok set') ↔ ∀ entry ∈ entries, ValidEntry entry := by
  induction entries generalizing set with
  | nil => simp [BlacklistSet.addAll]
  | cons entry entries ih =>
    rw [BlacklistSet.addAll]
    cases hadd : set.addEntry entry with
    | none =>
      have hbad := addEntry_eq_none.mp hadd
      simp [hbad]
    | some next =>
      have hgood : ValidEntry entry := by
        by_contra hbad
        rw [addEntry_eq_none.mpr hbad] at hadd
        cases hadd
      rw [ih]
      simp [hgood]

/-- A list as numbers: an address of it, or one in a network of it. -/
def Listed (entries : List Bytes) (addr : Bytes) : Prop :=
  (∃ entry ∈ entries, ∃ ip, parseIP entry = some ip ∧ reduceIP ip = addr) ∨
    ∃ entry ∈ entries, ∃ net, readCidr entry = some net ∧ net.Contains addr

/-! ### The verdict -/

/-- What a set says about a host. -/
def Blocks (set : BlacklistSet) (host : Bytes) : Prop :=
  normalizeIP host ∈ set.exact ∨
    ∃ ip, parseIP (normalizeIP host) = some ip ∧ ∃ net ∈ set.nets, net.contains ip = true

open Classical in
theorem onAccept_some (p : Blacklist) (addr : Bytes) : p.onAccept (some addr) =
    if Blocks p.set ((splitHost addr).getD addr) then some .pluginBlock else none := by
  unfold Blacklist.onAccept Blocks
  dsimp only
  split
  · rename_i hmem
    simp [hmem]
  rename_i hmem
  split
  · rename_i hip
    simp [hmem, hip]
  · rename_i ip hip
    simp [hmem, hip]

/-- **What a set blocks is what its entries list.** -/
theorem blocks_iff (h : parseBlacklist entries = .ok set) {host ip : Bytes}
    (hip : parseIP host = some ip) : Blocks set host ↔ Listed entries (reduceIP ip) := by
  obtain ⟨hexact, hnets⟩ := mem_of_addAll h
  have haddr : normalizeIP host ∈ set.exact ↔
      ∃ entry ∈ entries, ∃ ip', parseIP entry = some ip' ∧ reduceIP ip' = reduceIP ip := by
    rw [hexact]
    constructor
    · rintro (hempty | ⟨entry, hentry, ip', hip', hnorm⟩)
      · exact absurd hempty ExtTreeMap.not_mem_empty
      · exact ⟨entry, hentry, ip', hip', (normalizeIP_eq_iff hip' hip).mp hnorm⟩
    · rintro ⟨entry, hentry, ip', hip', hsame⟩
      exact .inr ⟨entry, hentry, ip', hip', (normalizeIP_eq_iff hip' hip).mpr hsame⟩
  have hnet : (∃ net ∈ set.nets, net.contains (to16 (reduceIP ip)) = true) ↔
      ∃ entry ∈ entries, ∃ net, readCidr entry = some net ∧ net.Contains (reduceIP ip) := by
    have hone : ∀ entry, (∃ net, parseCIDR entry = some net ∧
        net.contains (to16 (reduceIP ip)) = true) ↔
          ∃ net, readCidr entry = some net ∧ net.Contains (reduceIP ip) := by
      intro entry
      rw [contains_parseCIDR, reduceIP_to16 (reduced_reduceIP (length_parseIP hip))]
    constructor
    · rintro ⟨net, hmem, hcontains⟩
      rcases (hnets net).mp hmem with hempty | ⟨entry, hentry, hcidr⟩
      · cases hempty
      · exact ⟨entry, hentry, (hone entry).mp ⟨net, hcidr, hcontains⟩⟩
    · rintro ⟨entry, hentry, hlies⟩
      obtain ⟨net, hcidr, hcontains⟩ := (hone entry).mpr hlies
      exact ⟨net, (hnets net).mpr (.inr ⟨entry, hentry, hcidr⟩), hcontains⟩
  unfold Blocks Listed
  rw [haddr, parseIP_normalizeIP hip]
  simp only [Option.some.injEq, exists_eq_left', hnet]

/-- A host with a zone is no literal, and normal forms have no zones. -/
theorem not_blocks_of_zone (h : parseBlacklist entries = .ok set) {host : Bytes}
    (hzone : 0x25 ∈ host) : ¬ Blocks set host := by
  have hnone : ∀ {text ip : Bytes}, parseIP text = some ip → 0x25 ∉ text :=
    fun hip => notMem_of_parseIP hip (by decide)
  have hparse : parseIP host = none :=
    Option.eq_none_iff_forall_not_mem.mpr fun ip hip => hnone hip hzone
  have hself : normalizeIP host = host := by rw [normalizeIP, hparse]
  rw [Blocks, hself]
  rintro (hexact | ⟨ip, hip, -⟩)
  · rcases ((mem_of_addAll h).1 host).mp hexact with hempty | ⟨entry, -, ip, hip, rfl⟩
    · exact ExtTreeMap.not_mem_empty hempty
    exact hnone (parseIP_normalizeIP hip) hzone
  · exact hnone hip hzone

/-! ### Remote addresses -/

/-- How the host stands in the text of an address. -/
inductive HostForm
  | bare
  | plain (port : Bytes)
  | bracketed (port : Bytes)
  deriving DecidableEq, Repr

/-- A port is written without colons and brackets. -/
def PortText (port : Bytes) : Prop := 0x3a ∉ port ∧ 0x5b ∉ port ∧ 0x5d ∉ port

def HostForm.Fits (host : Bytes) : HostForm → Prop
  | bare => True
  | plain port => 0x3a ∉ host ∧ PortText port
  | bracketed port => PortText port

/-- A remote address whose host is an IP literal.  Only an IPv6 literal has a zone. -/
structure RemoteAddr where
  literal : Bytes
  ip : Bytes
  parses : parseIP literal = some ip
  zone : Option Bytes
  zone_of_ipv6 : zone.isSome = true → 0x3a ∈ literal
  form : HostForm
  fits : form.Fits literal

namespace RemoteAddr

variable (r : RemoteAddr)

def host : Bytes := r.literal ++ r.zone.elim [] (0x25 :: ·)

/-- `RemoteAddr().String()`. -/
def text : Bytes :=
  match r.form with
  | .bare => r.host
  | .plain port => r.host ++ 0x3a :: port
  | .bracketed port => 0x5b :: (r.host ++ 0x5d :: 0x3a :: port)

/-- The address without its zone, a mapped IPv4 address as IPv4. -/
def address : Bytes := reduceIP r.ip

theorem no_brackets : 0x5b ∉ r.literal ∧ 0x5d ∉ r.literal :=
  ⟨notMem_of_parseIP r.parses (by decide), notMem_of_parseIP r.parses (by decide)⟩

/-- The host of an address without a zone is found, whatever its form. -/
theorem host_of_text (hzone : r.zone = none) : (splitHost r.text).getD r.text = r.literal := by
  have hhost : r.host = r.literal := by
    rw [host, hzone]
    exact List.append_nil _
  obtain ⟨hopen, hclose⟩ := r.no_brackets
  have hfits := r.fits
  unfold text
  rw [hhost]
  cases hform : r.form with
  | bare =>
    rw [splitHost_of_parseIP r.parses]
    rfl
  | plain port =>
    rw [hform] at hfits
    obtain ⟨hcolon, hport⟩ := hfits
    rw [splitHost_plain hcolon hport.1 (by simp [hopen, hport.2.1]) (by simp [hclose, hport.2.2])]
    rfl
  | bracketed port =>
    rw [hform] at hfits
    have hport : PortText port := hfits
    rw [splitHost_bracketed hport.1 (by simp [hopen, hport.2.1]) (by simp [hclose, hport.2.2])]
    rfl

/-- The zone stays in what is taken for the host, whatever the form and the zone. -/
theorem zone_of_text (hzone : r.zone.isSome = true) : 0x25 ∈ (splitHost r.text).getD r.text := by
  obtain ⟨zone, hsome⟩ := Option.isSome_iff_exists.mp hzone
  have hcolon := r.zone_of_ipv6 hzone
  have hhost : r.host = r.literal ++ 0x25 :: zone := by
    rw [host, hsome]
    rfl
  obtain ⟨hopen, hclose⟩ := r.no_brackets
  have hfits := r.fits
  unfold text
  rw [hhost]
  cases hform : r.form with
  | bare =>
    have hcolons : 2 ≤ (r.literal ++ 0x25 :: zone).count 0x3a := by
      have htwo := colons_of_parseIP r.parses hcolon
      rw [List.count_append]
      omega
    have hhead : (r.literal ++ 0x25 :: zone).head? ≠ some 0x5b := by
      obtain ⟨b, rest, hb⟩ := List.exists_cons_of_ne_nil (List.ne_nil_of_mem hcolon)
      rw [hb, List.cons_append, List.head?_cons]
      rintro ⟨⟩
      exact hopen (hb ▸ List.mem_cons_self)
    rw [splitHost_of_two_colons hhead hcolons]
    simp
  | plain port =>
    rw [hform] at hfits
    exact absurd hcolon hfits.1
  | bracketed port =>
    have htext : r.literal ++ 0x25 :: zone ++ 0x5d :: 0x3a :: port =
        (r.literal ++ [0x25]) ++ (zone ++ 0x5d :: 0x3a :: port) := by simp
    dsimp only
    rw [htext]
    cases hsplit : splitHost (0x5b :: ((r.literal ++ [0x25]) ++ (zone ++ 0x5d :: 0x3a :: port))) with
    | none => simp
    | some host => exact subset_of_splitHost (by simp [hclose]) hsplit (by simp)

end RemoteAddr

/-! ### The list in force -/

theorem parse_of_replace (h : p.replace entries = (none, p')) :
    parseBlacklist entries = .ok p'.set := by
  unfold Blacklist.replace at h
  split at h
  · cases h
  rename_i set hset
  cases h
  exact hset

theorem keep_of_replace {err : List Piece} (h : p.replace entries = (some err, p')) : p' = p := by
  unfold Blacklist.replace at h
  split at h
  · cases h
    rfl
  · cases h

/-- Sets with the same addresses and networks have the same verdicts. -/
theorem onAccept_congr (hexact : ∀ t, t ∈ p.set.exact ↔ t ∈ p'.set.exact)
    (hnets : ∀ n, n ∈ p.set.nets ↔ n ∈ p'.set.nets) (remote : Option Bytes) :
    p.onAccept remote = p'.onAccept remote := by
  cases remote with
  | none => rfl
  | some addr =>
    have hblocks : Blocks p.set ((splitHost addr).getD addr) ↔
        Blocks p'.set ((splitHost addr).getD addr) := by
      rw [Blocks, Blocks, hexact]
      simp only [hnets]
    rw [onAccept_some, onAccept_some]
    split_ifs <;> tauto

/-- The order of the entries and how often each stands there do not matter. -/
theorem replace_same_entries {entries entries' : List Bytes} (h : p.replace entries = (none, p'))
    (hsame : ∀ e, e ∈ entries' ↔ e ∈ entries) :
    ∃ q, p.replace entries' = (none, q) ∧ ∀ remote, q.onAccept remote = p'.onAccept remote := by
  have hparse := parse_of_replace h
  have hvalid : ∀ entry ∈ entries', ValidEntry entry := by
    intro entry hentry
    exact addAll_ok_iff.mp ⟨_, hparse⟩ entry ((hsame entry).mp hentry)
  obtain ⟨set, hset⟩ := addAll_ok_iff.mpr hvalid
  refine ⟨⟨set⟩, replace_of_parse hset p, onAccept_congr ?_ ?_⟩
  · intro t
    rw [(mem_of_addAll hset).1, (mem_of_addAll hparse).1]
    simp only [hsame]
  · intro n
    rw [(mem_of_addAll hset).2, (mem_of_addAll hparse).2]
    simp only [hsame]

/-- **A block list blocks what it lists**, unless the address has a zone.  After a `Replace`
that succeeds, a session whose remote address is an IP literal, in any of its text forms, is
refused exactly if its address is a listed one or lies in a listed network of its family:
this holds for those without a zone and those that are not listed, since every address with
a zone passes.  Order and duplicates of the entries make no difference, and a `Replace` that
fails changes no verdict. -/
theorem blacklist_blocks_listed (p p' : Blacklist) (entries : List Bytes)
    (hreplace : p.replace entries = (none, p')) :
    (∀ r : RemoteAddr,
      (p'.onAccept (some r.text) = some .pluginBlock ↔ Listed entries r.address) ↔
        r.zone = none ∨ ¬ Listed entries r.address) ∧
    (∀ r : RemoteAddr, r.zone.isSome = true → p'.onAccept (some r.text) = none) ∧
    (∀ entries', (∀ e, e ∈ entries' ↔ e ∈ entries) →
      ∃ q, p.replace entries' = (none, q) ∧ ∀ remote, q.onAccept remote = p'.onAccept remote) ∧
    ∀ bad err q, p'.replace bad = (some err, q) →
      ∀ remote, q.onAccept remote = p'.onAccept remote := by
  have hparse := parse_of_replace hreplace
  have hpasses : ∀ r : RemoteAddr, r.zone.isSome = true → p'.onAccept (some r.text) = none := by
    intro r hzone
    rw [onAccept_some, if_neg (not_blocks_of_zone hparse (r.zone_of_text hzone))]
  refine ⟨?_, hpasses, ?_, ?_⟩
  · intro r
    cases hzone : r.zone with
    | none =>
      refine iff_of_true ?_ (.inl rfl)
      rw [onAccept_some, r.host_of_text hzone, RemoteAddr.address, ← blocks_iff hparse r.parses]
      simp
    | some zone =>
      rw [hpasses r (by rw [hzone]; rfl)]
      simp
  · intro entries' hsame
    exact replace_same_entries hreplace hsame
  · intro bad err q hbad remote
    rw [keep_of_replace hbad]

/-- Blocked by an address in another form and by a network of mapped addresses. -/
theorem blacklist_blocks_listed_forms : ∃ p, (newBlacklist []).replace
      [ascii "10.0.0.1", ascii "::ffff:192.168.0.0/112"] = (none, p) ∧
    p.onAccept (some (ascii "[::ffff:a00:1]:80")) = some .pluginBlock ∧
    p.onAccept (some (ascii "192.168.3.4:80")) = some .pluginBlock := by
  have hrep : ∃ p, (newBlacklist []).replace
      [ascii "10.0.0.1", ascii "::ffff:192.168.0.0/112"] = (none, p) := ⟨_, rfl⟩
  obtain ⟨p, hp⟩ := hrep
  have hblocks := (blacklist_blocks_listed _ p _ hp).1
  refine ⟨p, hp, ?_, ?_⟩
  · exact (hblocks ⟨ascii "::ffff:a00:1", _, rfl, none, by simp, .bracketed (ascii "80"),
      by unfold HostForm.Fits PortText; decide⟩).mpr (.inl rfl) |>.mpr
      (.inl ⟨_, List.mem_cons_self, _, rfl, by decide⟩)
  · exact (hblocks ⟨ascii "192.168.3.4", _, rfl, none, by simp, .plain (ascii "80"),
      by unfold HostForm.Fits PortText; decide⟩).mpr (.inl rfl) |>.mpr
      (.inr ⟨_, List.mem_cons_of_mem _ List.mem_cons_self, _, rfl, by decide⟩)

/-- The address that the list has, with a zone, is let in. -/
theorem onAccept_zone : ∃ p, (newBlacklist []).replace [ascii "fe80::1"] = (none, p) ∧
    ∃ r : RemoteAddr, r.text = ascii "[fe80::1%eth0]:80" ∧ Listed [ascii "fe80::1"] r.address ∧
      p.onAccept (some r.text) = none := by
  refine ⟨_, rfl, ⟨ascii "fe80::1", _, rfl, some (ascii "eth0"), by decide,
    .bracketed (ascii "80"), by unfold HostForm.Fits PortText; decide⟩, by decide,
    .inl ⟨_, List.mem_cons_self, _, rfl, rfl⟩, by decide⟩

end SharkSocket.Plugin
