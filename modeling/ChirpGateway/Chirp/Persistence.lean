import ChirpGateway.Chirp.RegistryRun

/-!
# The registry on disk

`chirp_save_locked`, `chirp_load_locked` and `chirp_glue_record`
(`datum_chirp_glue.c:33-112`). The file is the JSON value it holds: jansson keeps
the order of members, integers and doubles, and refuses a member name that is not
UTF-8. Such a member is left out of the file, and with it all that was recorded
for it.
-/

namespace ChirpGateway

open Bytes

/-- A member name made of these bytes, one character for each. -/
def Json.memberName (bytes : List UInt8) : String :=
  String.ofList (bytes.map Char.ofUInt8)

@[simp] theorem ascii_memberName (bytes : List UInt8) : ascii (Json.memberName bytes) = bytes := by
  rw [ascii, Json.memberName, String.toList_ofList, List.map_map]
  apply List.map_id''
  intro byte
  exact UInt8.ofNat_toNat

/-- `json_object_set_new` under a name that is not a literal, which is refused
    unless it is UTF-8. -/
def Json.objectSetBytes (value : Json) (name : List UInt8) (member : Json) : Json :=
  if validUtf8 name then value.objectSet (Json.memberName name) member else value

/-! ## Saving -/

/-- The pair written for a share. -/
def savedShare (share : ChirpShare) : Json :=
  .array [.ofUInt64 share.ts.toNat, .real share.work]

/-- The object written for a member. -/
def savedMember (m : ChirpMiner) : Json :=
  .ofMembers
    [("first_seen", some (.ofUInt64 m.firstSeen.toNat)),
      ("last_seen", some (.ofUInt64 m.lastSeen.toNat)),
      ("active_secs", some (.real m.activeSecs)),
      ("shares", some (.array (m.shares.map savedShare)))]

/-- `miners`, as the loop of `chirp_save_locked` builds it. -/
def savedMiners (registry : List ChirpMiner) : Json :=
  registry.foldl (fun miners m => miners.objectSetBytes m.addr.bytes (savedMember m)) (.object [])

/-- The file `chirp_save_locked` writes. -/
def chirpSave (registry : List ChirpMiner) : Json :=
  (Json.object []).objectSet "miners" (savedMiners registry)

/-! ## Loading -/

/-- One turn of the loop over `shares`. -/
def loadedShare (now : UInt64) : Json → Option ChirpShare
  | .array (first :: second :: _) =>
    let ts := UInt64.ofInt first.integerValue
    if ts.toNat < windowCutoff now then none else some { ts, work := second.numberValue }
  | _ => none

/-- What the load puts into a member. -/
def restoreMember (now : UInt64) (mo : Json) (m : ChirpMiner) : ChirpMiner :=
  let firstSeen := UInt64.ofInt (mo.integerAt "first_seen")
  { m with
    firstSeen := if firstSeen = 0 then now else firstSeen
    lastSeen := UInt64.ofInt (mo.integerAt "last_seen")
    activeSecs := mo.numberAt "active_secs"
    shares := ((mo.arrayAt "shares").getD []).filterMap (loadedShare now) }

/-- The loop over the registry that looks for the address just recorded. -/
def patchFirst (addr : List UInt8) (patch : ChirpMiner → ChirpMiner) :
    List ChirpMiner → List ChirpMiner
  | [] => []
  | m :: registry =>
    if strncmpEq m.addr.bytes addr (chirpAddrMax - 1) then
      patch m :: registry
    else
      m :: patchFirst addr patch registry

/-- One turn of the loop over `miners`. -/
def loadMember (now : UInt64) (registry : List ChirpMiner) (entry : String × Json) :
    List ChirpMiner :=
  patchFirst (ascii entry.1) (restoreMember now entry.2)
    (chirpRecordShare registry (ascii entry.1) 0 now)

/-- `chirp_load_locked` into the empty registry; `none` where there is no file. -/
def chirpLoad (now : UInt64) (file : Option Json) : List ChirpMiner :=
  match file.bind fun root => root.objectGet "miners" with
  | some (.object members) => members.foldl (loadMember now) []
  | _ => []

/-! ## Recording under a username -/

/-- A call of `chirp_glue_record`. -/
structure GlueRecord where
  username : List UInt8
  diff : Nat
  now : UInt64

/-- `addr` in `chirp_glue_record`. -/
def GlueRecord.addr (call : GlueRecord) : List UInt8 :=
  chirpPayoutAddress call.username chirpAddrMax

/-- `chirp_glue_record` on a registry that is there. -/
def chirpGlueRecord (registry : List ChirpMiner) (call : GlueRecord) : List ChirpMiner :=
  if (Buffer.cString call.username).isEmpty || call.addr.isEmpty then
    registry
  else
    chirpRecordShare registry call.addr call.diff call.now

/-- The registry a series of such calls builds. -/
def recordedRegistry (calls : List GlueRecord) : List ChirpMiner :=
  calls.foldl chirpGlueRecord []

/-! ## A member there and back -/

theorem ofInt_ofUInt64 (value : UInt64) :
    UInt64.ofInt (Json.ofUInt64 value.toNat).integerValue = value := by
  apply UInt64.toNat_inj.mp
  have hlt := value.toNat_lt
  rw [Json.ofUInt64, Json.integerValue, UInt64.ofInt, UInt64.toNat_ofNat']
  have hmod : ((value.toNat : Int).bmod (2 ^ 64)) % 2 ^ 64 = value.toNat := by
    have := Int.bmod_emod (x := value.toNat) (m := 2 ^ 64)
    omega
  rw [hmod]
  omega

section Member

variable (now : UInt64) (m : ChirpMiner)

theorem savedMember_get (name : String) :
    (savedMember m).objectGet name =
      (List.lookup name
        [("first_seen", some (.ofUInt64 m.firstSeen.toNat)),
          ("last_seen", some (.ofUInt64 m.lastSeen.toNat)),
          ("active_secs", some (.real m.activeSecs)),
          ("shares", some (.array (m.shares.map savedShare)))]).join :=
  Json.objectGet_ofMembers (by simp) name

/-- A member without the shares of more than 24 hours before the load. -/
def agedMember : ChirpMiner :=
  { m with shares := Window.since ChirpShare.stamp (windowCutoff now) m.shares }

theorem loadedShare_savedShare (share : ChirpShare) :
    loadedShare now (savedShare share) =
      if windowCutoff now ≤ share.stamp then some share else none := by
  simp only [savedShare, loadedShare, ofInt_ofUInt64, Json.numberValue]
  by_cases hold : share.ts.toNat < windowCutoff now
  · have hlate : ¬ windowCutoff now ≤ share.stamp := not_le.mpr hold
    rw [if_pos hold, if_neg hlate]
  · have hlate : windowCutoff now ≤ share.stamp := not_lt.mp hold
    rw [if_neg hold, if_pos hlate]

theorem filterMap_loadedShare (shares : List ChirpShare) :
    (shares.map savedShare).filterMap (loadedShare now) =
      Window.since ChirpShare.stamp (windowCutoff now) shares := by
  rw [List.filterMap_map, Window.since]
  induction shares with
  | nil => rfl
  | cons share shares ih =>
    rw [List.filterMap_cons, Function.comp_apply, loadedShare_savedShare, List.filter_cons, ih]
    by_cases hlate : windowCutoff now ≤ share.stamp
    · simp [hlate]
    · simp [hlate]

theorem integerAt_ofUInt64 {value : Json} {name : String} {stored : UInt64}
    (hget : value.objectGet name = some (.ofUInt64 stored.toNat)) :
    UInt64.ofInt (value.integerAt name) = stored := by
  rw [Json.integerAt, hget, Option.map_some, Option.getD_some, ofInt_ofUInt64]

theorem savedMember_firstSeen :
    UInt64.ofInt ((savedMember m).integerAt "first_seen") = m.firstSeen := by
  apply integerAt_ofUInt64
  rw [savedMember_get]
  rfl

theorem savedMember_lastSeen :
    UInt64.ofInt ((savedMember m).integerAt "last_seen") = m.lastSeen := by
  apply integerAt_ofUInt64
  rw [savedMember_get]
  rfl

/-- What the load puts in for a saved member. -/
theorem restoreMember_savedMember (old : ChirpMiner) (haddr : old.addr = m.addr) :
    restoreMember now (savedMember m) old =
      { agedMember now m with firstSeen := if m.firstSeen = 0 then now else m.firstSeen } := by
  have hactive : (savedMember m).numberAt "active_secs" = m.activeSecs := by
    rw [Json.numberAt, savedMember_get]
    rfl
  have hshares : (savedMember m).arrayAt "shares" = some (m.shares.map savedShare) := by
    rw [Json.arrayAt, savedMember_get]
    rfl
  simp only [restoreMember, agedMember, savedMember_firstSeen, savedMember_lastSeen, hactive,
    hshares, haddr, Option.getD_some, filterMap_loadedShare]

end Member

/-! ## The file there and back -/

/-- A member that finds its name free is put at the end. -/
theorem setMember_of_fresh {name : String} {members : List (String × Json)}
    (hfresh : name ∉ members.map Prod.fst) (member : Json) :
    Json.setMember name member members = members ++ [(name, member)] := by
  induction members with
  | nil => rfl
  | cons entry members ih =>
    obtain ⟨key, old⟩ := entry
    rw [List.map_cons, List.mem_cons, not_or] at hfresh
    rw [Json.setMember, if_neg fun heq => hfresh.1 heq.symm, ih hfresh.2, List.cons_append]

theorem memberName_injective : Function.Injective Json.memberName :=
  Function.LeftInverse.injective ascii_memberName

/-- A member's entry in the file. -/
def savedEntry (m : ChirpMiner) : String × Json :=
  (Json.memberName m.addr.bytes, savedMember m)

/-- The members with a name jansson takes. -/
def storable (registry : List ChirpMiner) : List ChirpMiner :=
  registry.filter fun m => validUtf8 m.addr.bytes

/-- With distinct addresses the file lists the members in their order. -/
theorem savedMiners_eq {registry : List ChirpMiner}
    (hdistinct : (registry.map ChirpMiner.addr).Nodup) :
    savedMiners registry = .object ((storable registry).map savedEntry) := by
  induction registry using List.reverseRecOn with
  | nil => rfl
  | append_singleton registry m ih =>
    rw [List.map_append, List.nodup_append] at hdistinct
    obtain ⟨hbefore, -, hdisjoint⟩ := hdistinct
    have hstep : savedMiners (registry ++ [m]) =
        (savedMiners registry).objectSetBytes m.addr.bytes (savedMember m) := by
      simp [savedMiners]
    rw [hstep, ih hbefore, Json.objectSetBytes, storable, storable, List.filter_append]
    by_cases hutf8 : validUtf8 m.addr.bytes = true
    · have hfresh : Json.memberName m.addr.bytes ∉
          ((registry.filter fun m => validUtf8 m.addr.bytes).map savedEntry).map Prod.fst := by
        simp only [List.mem_map, not_exists, not_and]
        rintro entry ⟨other, hother, rfl⟩ hname
        have haddr : other.addr = m.addr := by
          have hbytes := memberName_injective hname
          cases hone : other.addr
          cases htwo : m.addr
          simp_all
        exact hdisjoint _ (List.mem_map_of_mem (List.mem_filter.mp hother).1) _
          (List.mem_singleton_self _) haddr
      rw [if_pos hutf8, Json.objectSet, setMember_of_fresh hfresh]
      simp [hutf8, savedEntry]
    · rw [if_neg hutf8]
      simp [hutf8]

/-- A name that is new to the registry is recorded, found at the end and
    patched there. -/
theorem loadMember_of_fresh {registry : List ChirpMiner} {entry : String × Json} (now : UInt64)
    (hfresh : ∀ m ∈ registry, m.addr ≠ .copy (ascii entry.1)) :
    loadMember now registry entry = registry ++
      [restoreMember now entry.2
        ((ChirpMiner.fresh (ascii entry.1) now).record 0 now)] := by
  induction registry with
  | nil =>
    have hsame := (strncmpEq_iff (.copy (ascii entry.1)) (ascii entry.1)).mpr rfl
    rw [loadMember, chirpRecordShare_nil, patchFirst, ChirpMiner.record_addr,
      ChirpMiner.fresh_addr, if_pos hsame, List.nil_append]
  | cons m registry ih =>
    obtain ⟨hne, hrest⟩ := List.forall_mem_cons.mp hfresh
    have hdiff : ¬ strncmpEq m.addr.bytes (ascii entry.1) (chirpAddrMax - 1) = true :=
      fun heq => hne ((strncmpEq_iff m.addr (ascii entry.1)).mp heq)
    rw [loadMember, chirpRecordShare_cons, if_neg hne, patchFirst, if_neg hdiff]
    exact congrArg (m :: ·) (ih hrest)

/-- What comes back for a member. -/
def reloadedMember (now : UInt64) (m : ChirpMiner) : ChirpMiner :=
  { agedMember now m with firstSeen := if m.firstSeen = 0 then now else m.firstSeen }

/-- Loading what was written gives the members whose names jansson took. -/
theorem chirpLoad_chirpSave {registry : List ChirpMiner}
    (hdistinct : (registry.map ChirpMiner.addr).Nodup) (now : UInt64) :
    chirpLoad now (some (chirpSave registry)) = (storable registry).map (reloadedMember now) := by
  have hload : ∀ members : List ChirpMiner, (members.map ChirpMiner.addr).Nodup →
      (members.map savedEntry).foldl (loadMember now) [] =
        members.map (reloadedMember now) := by
    intro members hnodup
    induction members using List.reverseRecOn with
    | nil => rfl
    | append_singleton members m ih =>
      rw [List.map_append, List.nodup_append] at hnodup
      obtain ⟨hbefore, -, hdisjoint⟩ := hnodup
      have hcopy : ChirpAddr.copy (ascii (savedEntry m).1) = m.addr := by
        rw [savedEntry, ascii_memberName, ChirpAddr.copy_bytes]
      have hfresh : ∀ old ∈ members.map (reloadedMember now),
          old.addr ≠ .copy (ascii (savedEntry m).1) := by
        intro old hold
        obtain ⟨other, hother, rfl⟩ := List.mem_map.mp hold
        rw [hcopy]
        exact hdisjoint _ (List.mem_map_of_mem hother) _ (List.mem_singleton_self _)
      rw [List.map_append, List.foldl_append, ih hbefore, List.map_append]
      show loadMember now _ (savedEntry m) = _
      rw [loadMember_of_fresh now hfresh]
      congr 2
      exact restoreMember_savedMember now m _ hcopy
  have hsaved : (chirpSave registry).objectGet "miners" =
      some (.object ((storable registry).map savedEntry)) := by
    rw [chirpSave, Json.objectGet_objectSet_self ⟨_, rfl⟩, savedMiners_eq hdistinct]
  have hstorable : ((storable registry).map ChirpMiner.addr).Nodup :=
    hdistinct.sublist (List.filter_sublist.map _)
  rw [chirpLoad, Option.bind_some, hsaved]
  exact hload _ hstorable

/-! ## Who is in the registry -/

/-- An address that is not empty came from a username that is not. -/
theorem cString_username_ne_nil {call : GlueRecord} (haddr : call.addr ≠ []) :
    Buffer.cString call.username ≠ [] := by
  intro hnil
  apply haddr
  rw [GlueRecord.addr, chirpPayoutAddress, hnil]
  rfl

/-- The buffer takes the address whole. -/
theorem copy_addr_bytes (call : GlueRecord) : (ChirpAddr.copy call.addr).bytes = call.addr := by
  have hshort : call.addr.length ≤ chirpAddrMax - 1 := by
    rw [GlueRecord.addr, chirpPayoutAddress]
    exact List.length_take_le _ _
  have hnoNul : (0 : UInt8) ∉ call.addr := by
    intro hmem
    have hin : (0 : UInt8) ∈ Buffer.cString call.username := by
      have hdrop := List.takeWhile_subset _ (List.mem_of_mem_take hmem)
      split at hdrop
      · exact List.mem_of_mem_drop hdrop
      · exact hdrop
    exact Buffer.zero_notMem_cString _ hin
  show (Buffer.cString call.addr).take (chirpAddrMax - 1) = call.addr
  rw [Buffer.cString_eq_self hnoNul, List.take_of_length_le hshort]

theorem chirpGlueRecord_of_addr {registry : List ChirpMiner} {call : GlueRecord}
    (haddr : call.addr ≠ []) :
    chirpGlueRecord registry call = chirpRecordShare registry call.addr call.diff call.now := by
  have hname := cString_username_ne_nil haddr
  rw [chirpGlueRecord, if_neg]
  simp [haddr, hname]

theorem chirpGlueRecord_of_no_addr {registry : List ChirpMiner} {call : GlueRecord}
    (haddr : call.addr = []) : chirpGlueRecord registry call = registry := by
  rw [chirpGlueRecord, if_pos]
  simp [haddr]

theorem recordedRegistry_concat (calls : List GlueRecord) (call : GlueRecord) :
    recordedRegistry (calls ++ [call]) = chirpGlueRecord (recordedRegistry calls) call := by
  simp [recordedRegistry]

theorem recordedRegistry_nodup (calls : List GlueRecord) :
    ((recordedRegistry calls).map ChirpMiner.addr).Nodup := by
  induction calls using List.reverseRecOn with
  | nil => exact List.nodup_nil
  | append_singleton calls call ih =>
    rw [recordedRegistry_concat]
    by_cases haddr : call.addr = []
    · rw [chirpGlueRecord_of_no_addr haddr]
      exact ih
    · rw [chirpGlueRecord_of_addr haddr]
      exact chirpRecordShare_nodup _ _ _ ih

/-- The members are the addresses that were recorded. -/
theorem mem_recordedRegistry_addrs (calls : List GlueRecord) (addr : ChirpAddr) :
    addr ∈ (recordedRegistry calls).map ChirpMiner.addr ↔
      ∃ call ∈ calls, call.addr ≠ [] ∧ addr = .copy call.addr := by
  induction calls using List.reverseRecOn with
  | nil => simp [recordedRegistry]
  | append_singleton calls call ih =>
    rw [recordedRegistry_concat]
    by_cases haddr : call.addr = []
    · rw [chirpGlueRecord_of_no_addr haddr, ih]
      simp [haddr, or_and_right, exists_or]
    · rw [chirpGlueRecord_of_addr haddr, mem_addrs_chirpRecordShare, ih]
      simp [haddr, or_and_right, exists_or]

/-! ## What later calls can tell apart -/

/-- Two members that no call at the cutoff or later treats differently. -/
structure SameFrom (cutoff : Nat) (m m' : ChirpMiner) : Prop where
  addr : m.addr = m'.addr
  firstSeen : m.firstSeen = m'.firstSeen
  lastSeen : m.lastSeen = m'.lastSeen
  activeSecs : m.activeSecs = m'.activeSecs
  shares : Window.AgreeFrom ChirpShare.stamp cutoff m.shares m'.shares

theorem sameFrom_agedMember (now : UInt64) (m : ChirpMiner) :
    SameFrom (windowCutoff now) (agedMember now m) m :=
  ⟨rfl, rfl, rfl, rfl, (Window.AgreeFrom.refl _ _).prune_left le_rfl⟩

theorem SameFrom.refl (cutoff : Nat) (m : ChirpMiner) : SameFrom cutoff m m :=
  ⟨rfl, rfl, rfl, rfl, .refl _ _⟩

section Later

variable {cutoff : Nat} {m m' : ChirpMiner} {registry registry' : List ChirpMiner}

theorem SameFrom.record (hsame : SameFrom cutoff m m') (work : Rat) (now : UInt64) :
    SameFrom cutoff (m.record work now) (m'.record work now) := by
  obtain ⟨haddr, hfirst, hlast, hactive, hshares⟩ := hsame
  refine ⟨haddr, hfirst, rfl, ?_, hshares.append _⟩
  simp only [ChirpMiner.record, hlast, hactive]

/-- The work in the window is the same, and so is what is left behind. -/
theorem SameFrom.windowWork (hsame : SameFrom cutoff m m') {now : UInt64}
    (hle : cutoff ≤ windowCutoff now) :
    SameFrom cutoff (windowWork m now).1 (windowWork m' now).1 ∧
      (ChirpGateway.windowWork m now).2 = (ChirpGateway.windowWork m' now).2 := by
  refine ⟨⟨hsame.addr, hsame.firstSeen, hsame.lastSeen, hsame.activeSecs, ?_⟩, ?_⟩
  · rw [windowWork_shares, windowWork_shares]
    exact hsame.shares.prune_both hle
  · rw [windowWork_snd, windowWork_snd, hsame.shares _ hle]

theorem SameFrom.candidate (hsame : SameFrom cutoff m m') (env : ChirpEnv) {now : UInt64}
    (hle : cutoff ≤ windowCutoff now) : chirpCandidate env m now = chirpCandidate env m' now := by
  simp only [chirpCandidate, (hsame.windowWork hle).2, hsame.activeSecs, hsame.addr]

theorem forall₂_chirpRecordShare (hsame : List.Forall₂ (SameFrom cutoff) registry registry')
    (addr : List UInt8) (work : Rat) (now : UInt64) :
    List.Forall₂ (SameFrom cutoff) (chirpRecordShare registry addr work now)
      (chirpRecordShare registry' addr work now) := by
  induction hsame with
  | nil => exact .cons (.refl _ _) .nil
  | cons hfirst hrest ih =>
    rw [chirpRecordShare_cons, chirpRecordShare_cons, hfirst.addr]
    split
    · exact .cons (hfirst.record work now) hrest
    · exact .cons hfirst ih

theorem forall₂_modify (hsame : List.Forall₂ (SameFrom cutoff) registry registry')
    {f : ChirpMiner → ChirpMiner}
    (hf : ∀ m m', SameFrom cutoff m m' → SameFrom cutoff (f m) (f m')) (i : Nat) :
    List.Forall₂ (SameFrom cutoff) (registry.modify i f) (registry'.modify i f) := by
  induction hsame generalizing i with
  | nil =>
    rw [List.modify_nil]
    exact .nil
  | cons hfirst hrest ih =>
    cases i with
    | zero => exact .cons (hf _ _ hfirst) hrest
    | succ i => exact .cons hfirst (ih i)

theorem forall₂_apply (hsame : List.Forall₂ (SameFrom cutoff) registry registry')
    (call : RegistryCall) (hle : cutoff ≤ windowCutoff call.now) :
    List.Forall₂ (SameFrom cutoff) (call.apply registry) (call.apply registry') := by
  cases call with
  | recordShare addr work now => exact forall₂_chirpRecordShare hsame addr work now
  | candidates env now =>
    show List.Forall₂ _ (registry.map _) (registry'.map _)
    rw [List.forall₂_map_left_iff, List.forall₂_map_right_iff]
    exact hsame.imp fun _ _ hpair => (hpair.windowWork hle).1
  | memberStats i days power now =>
    apply forall₂_modify hsame
    intro m m' hpair
    cases power with
    | true => exact (hpair.windowWork hle).1
    | false => exact hpair

/-- A run of later calls keeps the two registries alike. -/
theorem forall₂_run (hsame : List.Forall₂ (SameFrom cutoff) registry registry')
    {calls : List RegistryCall} (hle : ∀ call ∈ calls, cutoff ≤ windowCutoff call.now) :
    List.Forall₂ (SameFrom cutoff) (calls.foldl RegistryCall.apply registry)
      (calls.foldl RegistryCall.apply registry') := by
  induction calls generalizing registry registry' with
  | nil => exact hsame
  | cons call calls ih =>
    obtain ⟨hfirst, hrest⟩ := List.forall_mem_cons.mp hle
    exact ih (forall₂_apply hsame call hfirst) hrest

theorem candidates_eq (hsame : List.Forall₂ (SameFrom cutoff) registry registry')
    (env : ChirpEnv) {now : UInt64} (hle : cutoff ≤ windowCutoff now) :
    (chirpCandidates env registry now).2 = (chirpCandidates env registry' now).2 := by
  simp only [chirpCandidates]
  induction hsame with
  | nil => rfl
  | cons hfirst hrest ih =>
    rw [List.filterMap_cons, List.filterMap_cons, hfirst.candidate env hle, ih]

end Later

/-! ## The round trip -/

/-- The registry survives a restart: what is loaded is what was there, without
    the shares of more than 24 hours, and no later call finds a difference. -/
structure RoundTrips (registry : List ChirpMiner) (now : UInt64) : Prop where
  same : chirpLoad now (some (chirpSave registry)) = registry.map (agedMember now)
  later : ∀ calls : List RegistryCall, (∀ call ∈ calls, now ≤ call.now) →
    List.Forall₂ (SameFrom (windowCutoff now))
      (calls.foldl RegistryCall.apply (chirpLoad now (some (chirpSave registry))))
      (calls.foldl RegistryCall.apply registry)
  candidates : ∀ calls : List RegistryCall, (∀ call ∈ calls, now ≤ call.now) →
    ∀ env time, now ≤ time →
      (chirpCandidates env
        (calls.foldl RegistryCall.apply (chirpLoad now (some (chirpSave registry)))) time).2 =
      (chirpCandidates env (calls.foldl RegistryCall.apply registry) time).2

/-- Once the members are the same, so is all that follows. -/
theorem roundTrips_of_same {registry : List ChirpMiner} {now : UInt64}
    (hsame : chirpLoad now (some (chirpSave registry)) = registry.map (agedMember now)) :
    RoundTrips registry now := by
  have hstart : List.Forall₂ (SameFrom (windowCutoff now))
      (chirpLoad now (some (chirpSave registry))) registry := by
    rw [hsame, List.forall₂_map_left_iff]
    exact List.forall₂_same.mpr fun m _ => sameFrom_agedMember now m
  have hlater : ∀ calls : List RegistryCall, (∀ call ∈ calls, now ≤ call.now) →
      List.Forall₂ (SameFrom (windowCutoff now))
        (calls.foldl RegistryCall.apply (chirpLoad now (some (chirpSave registry))))
        (calls.foldl RegistryCall.apply registry) :=
    fun calls hcalls => forall₂_run hstart fun call hcall => windowCutoff_mono (hcalls call hcall)
  refine ⟨hsame, hlater, ?_⟩
  intro calls hcalls env time htime
  exact candidates_eq (hlater calls hcalls) env (windowCutoff_mono htime)

/-- Every member comes back as it was exactly when jansson takes every name and
    no first sight is missing. -/
theorem chirpLoad_same_iff {registry : List ChirpMiner}
    (hdistinct : (registry.map ChirpMiner.addr).Nodup) (now : UInt64) :
    chirpLoad now (some (chirpSave registry)) = registry.map (agedMember now) ↔
      (∀ m ∈ registry, validUtf8 m.addr.bytes = true) ∧
        ∀ m ∈ registry, m.firstSeen = 0 → now = 0 := by
  rw [chirpLoad_chirpSave hdistinct]
  constructor
  · intro hsame
    have hall : storable registry = registry := by
      apply List.filter_sublist.eq_of_length
      have hlength := congrArg List.length hsame
      rwa [List.length_map, List.length_map] at hlength
    rw [hall] at hsame
    refine ⟨List.filter_eq_self.mp hall, ?_⟩
    intro m hm hzero
    have hmember := List.map_inj_left.mp hsame m hm
    have hfirst := congrArg ChirpMiner.firstSeen hmember
    simpa [reloadedMember, agedMember, hzero] using hfirst
  · rintro ⟨hutf8, hseen⟩
    have hall : storable registry = registry := List.filter_eq_self.mpr hutf8
    rw [hall]
    apply List.map_congr_left
    intro m hm
    by_cases hzero : m.firstSeen = 0
    · simp [reloadedMember, agedMember, hzero, hseen m hm hzero]
    · simp [reloadedMember, agedMember, hzero]

/-- No address is cut inside a character, and nobody was first seen at time
    zero, unless it still is. -/
structure SurvivesReload (calls : List GlueRecord) (now : UInt64) : Prop where
  whole : ∀ call ∈ calls, validUtf8 call.addr = true
  seen : ∀ m ∈ recordedRegistry calls, m.firstSeen = 0 → now = 0

theorem validUtf8_members_iff (calls : List GlueRecord) :
    (∀ m ∈ recordedRegistry calls, validUtf8 m.addr.bytes = true) ↔
      ∀ call ∈ calls, validUtf8 call.addr = true := by
  constructor
  · intro hmembers call hcall
    by_cases haddr : call.addr = []
    · rw [haddr]
      rfl
    · obtain ⟨m, hm, hcopy⟩ := List.mem_map.mp
        ((mem_recordedRegistry_addrs calls (.copy call.addr)).mpr ⟨call, hcall, haddr, rfl⟩)
      rw [← copy_addr_bytes, ← hcopy]
      exact hmembers m hm
  · intro hcalls m hm
    obtain ⟨call, hcall, -, hcopy⟩ :=
      (mem_recordedRegistry_addrs calls m.addr).mp (List.mem_map_of_mem hm)
    rw [hcopy, copy_addr_bytes]
    exact hcalls call hcall

/-- The registry survives a restart exactly when its names do. -/
theorem roundTrips_iff (calls : List GlueRecord) (now : UInt64) :
    RoundTrips (recordedRegistry calls) now ↔ SurvivesReload calls now := by
  have hsame := chirpLoad_same_iff (recordedRegistry_nodup calls) now
  rw [validUtf8_members_iff] at hsame
  constructor
  · intro hround
    obtain ⟨hwhole, hseen⟩ := hsame.mp hround.same
    exact ⟨hwhole, hseen⟩
  · rintro ⟨hwhole, hseen⟩
    exact roundTrips_of_same (hsame.mpr ⟨hwhole, hseen⟩)

/-- A username of 126 letters and one that takes two bytes. -/
def cutUsername : List UInt8 := List.replicate 126 97 ++ [0xc3, 0xa9]

/-- The cut falls between the two bytes, and the restart forgets the member. -/
theorem not_roundTrips_cutUsername : validUtf8 cutUsername = true ∧
    ¬ RoundTrips (recordedRegistry [{ username := cutUsername, diff := 1, now := 1000000 }])
      1000100 := by
  refine ⟨by decide +kernel, ?_⟩
  intro hround
  have hsame := (chirpLoad_same_iff (recordedRegistry_nodup _) _).mp hround.same
  have hcut := (validUtf8_members_iff _).mp hsame.1 _ (List.mem_singleton_self _)
  revert hcut
  decide +kernel

end ChirpGateway
