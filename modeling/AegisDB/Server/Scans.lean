import AegisDB.Mvcc.ScanWalk
import AegisDB.Server.History
import AegisDB.Server.SnapshotReads
import Mathlib.Data.List.Forall2
import Mathlib.Data.List.Perm.Subperm

/-! # Scans

`kv_scan` returns what the scanner shows of the keys from its start on, up to its limit, and
asks for the lock of each key that comes up. -/

namespace AegisDB.Server

open Foundation Storage Mvcc OrderedMap Reading List

/-! ## What the handler returns -/

def ScanRequest.pair (req : ScanRequest) (held : Option Lock) (key value : Bytes) : KvPair :=
  match held with
  | some lock =>
    if lock.ts ≠ req.version then .withError key (.ofLocked (lockInfo key lock))
    else .new key value
  | none => .new key value

def ScanRequest.scanner (req : ScanRequest) (store : FlatStore) : Scanner where
  txn := MvccTxn.new req.version
  endKey := none
  limit := req.limit
  count := 0
  currentKey := none
  writeIter := (store .write).seek (encodeKey req.startKey maxTimestamp)
  exhausted := false

def ScanRequest.shown (req : ScanRequest) (store : FlatStore) : List (Bytes × Fallible Bytes) :=
  scanned store req.version none ((store .write).seek (encodeKey req.startKey maxTimestamp))

def ScanRequest.Returns (req : ScanRequest) (store : FlatStore) (shown : Bytes × Fallible Bytes)
    (pair : KvPair) : Prop :=
  ∃ value held, shown.2 = .ok value ∧ lockOn store shown.1 = .ok held ∧
    pair = req.pair held shown.1 value

section Handler

variable {store : FlatStore} {req : ScanRequest}

@[simp] theorem key_pair (held : Option Lock) (key value : Bytes) :
    (req.pair held key value).key = key := by
  cases held with
  | none => rfl
  | some lock =>
    rw [ScanRequest.pair]
    split <;> rfl

theorem pair_of_foreign {lock : Lock} {key value : Bytes} (foreign : lock.ts ≠ req.version) :
    req.pair (some lock) key value = .withError key (.ofLocked (lockInfo key lock)) :=
  if_pos foreign

theorem ScanRequest.Returns.key_eq {shown : Bytes × Fallible Bytes} {pair : KvPair}
    (returns : req.Returns store shown pair) : pair.key = shown.1 := by
  rcases returns with ⟨value, held, _, _, rfl⟩
  exact key_pair held shown.1 value

theorem run_scannedPair (key value : Bytes) :
    (scannedPair req key value).run store =
      (fun held => req.pair held key value) <$> lockOn store key := by
  rw [scannedPair, run_bind, run_getLock]
  change (lockOn store key >>= _) = _
  cases lockOn store key with
  | error fault => rfl
  | ok held =>
    cases held with
    | none => rfl
    | some lock =>
      change Reading.run store (if _ then _ else _) = .ok (if _ then _ else _)
      split <;> rfl

theorem next_eq_nextFrom {scanner : Scanner} {rounds : Nat} (goesOn : scanner.exhausted = false)
    (room : scanner.count.toNat + (rounds + 1) = scanner.limit.toNat) :
    scanner.next = scanner.nextFrom scanner.currentKey scanner.writeIter := by
  have below : scanner.count < scanner.limit := UInt32.lt_iff_toNat_lt.mpr (by omega)
  rw [Scanner.next, if_neg (by simp [goesOn, below])]

theorem scanPairs_eq_ok_iff {rounds : Nat} {scanner : Scanner} {pairs result : List KvPair}
    (goesOn : scanner.exhausted = false) (unbounded : scanner.endKey = none)
    (sameTs : scanner.txn.startTs = req.version)
    (room : scanner.count.toNat + rounds = scanner.limit.toNat) :
    (scanPairs req rounds scanner pairs).run store = .ok result ↔
      ∃ more, List.Forall₂ (req.Returns store)
          ((scanned store req.version scanner.currentKey scanner.writeIter).take rounds) more ∧
        pairs ++ more = result := by
  induction rounds generalizing scanner pairs with
  | zero => simp [scanPairs]
  | succ rounds induction =>
    have ends : NextEnds store scanner
        (scanned store scanner.txn.startTs scanner.currentKey scanner.writeIter)
        ((scanner.nextFrom scanner.currentKey scanner.writeIter).run store) :=
      nextFrom_ends scanner unbounded scanner.currentKey scanner.writeIter
    rw [sameTs] at ends
    rw [scanPairs, run_bind, next_eq_nextFrom goesOn room]
    generalize (scanner.nextFrom scanner.currentKey scanner.writeIter).run store = outcome
      at ends ⊢
    cases ends with
    | exhausted nothing =>
      change Except.ok pairs = .ok result ↔ _
      simp [nothing]
    | failed shows_ =>
      change Except.error _ = .ok result ↔ _
      simp [shows_, List.forall₂_cons_left_iff, ScanRequest.Returns]
    | @returned key value rest shows_ =>
      rw [shows_, sameTs, take_succ_cons]
      change Reading.run store (scannedPair req key value >>= _) = _ ↔ _
      rw [run_bind, run_scannedPair]
      cases locked : lockOn store key with
      | error fault =>
        change Except.error _ = .ok result ↔ _
        simp [List.forall₂_cons_left_iff, ScanRequest.Returns, locked]
      | ok held =>
        change (scanPairs req rounds _ _).run store = _ ↔ _
        have counted : (scanner.count + 1).toNat = scanner.count.toNat + 1 := by
          have := scanner.limit.toNat_lt
          rw [UInt32.toNat_add]
          exact Nat.mod_eq_of_lt (by simp; omega)
        refine (induction ?_ ?_ ?_ ?_).trans ?_
        · exact goesOn
        · exact unbounded
        · exact sameTs
        · change (scanner.count + 1).toNat + rounds = scanner.limit.toNat
          omega
        · simp [List.forall₂_cons_left_iff, ScanRequest.Returns, locked]

theorem run_kvScan :
    (kvScan req).run store =
      ScanResponse.ok <$> (scanPairs req req.limit.toNat (req.scanner store) []).run store := by
  rw [kvScan, Scanner.new, run_bind, run_bind, run_iter]
  change Reading.run store (scanPairs req req.limit.toNat (req.scanner store) [] >>= _) = _
  rw [run_bind]
  cases (scanPairs req req.limit.toNat (req.scanner store) []).run store with
  | error fault => rfl
  | ok pairs => rfl

theorem kvScan_eq_ok_iff {response : ScanResponse} :
    (kvScan req).run store = .ok response ↔
      List.Forall₂ (req.Returns store) ((req.shown store).take req.limit.toNat)
        response.pairs := by
  have scans : (kvScan req).run store = .ok response ↔
      (scanPairs req req.limit.toNat (req.scanner store) []).run store = .ok response.pairs := by
    rcases response with ⟨returned⟩
    rw [run_kvScan]
    cases (scanPairs req req.limit.toNat (req.scanner store) []).run store with
    | error fault => simp
    | ok pairs => simp [ScanResponse.ok]
  rw [scans, scanPairs_eq_ok_iff rfl rfl rfl (by simp [ScanRequest.scanner])]
  simp [ScanRequest.shown, ScanRequest.scanner]

theorem mem_shown_iff {key : Bytes} {value : Fallible Bytes} :
    (key, value) ∈ req.shown store ↔
      req.startKey ≤ key ∧ scannedValue store req.version key = some value :=
  mem_scanned_iff

theorem shown_ascending (req : ScanRequest) (store : FlatStore) :
    (req.shown store).Pairwise fun left right => left.1 < right.1 :=
  scanned_ascending store req.version _

end Handler

/-! ## Scans and point reads -/

section Agreement

variable {store : FlatStore}

theorem lockOn_of_empty (unlocked : store .lock = OrderedMap.empty) (key : Bytes) :
    lockOn store key = .ok none := by
  rw [lockOn, unlocked]
  rfl

theorem exists_mem_of_forall₂ {relation : α → β → Prop} {left : List α} {right : List β}
    (related : List.Forall₂ relation left right) {element : β} (member : element ∈ right) :
    ∃ other ∈ left, relation other element := by
  induction related with
  | nil => cases member
  | cons head _ induction =>
    rcases mem_cons.mp member with rfl | member
    · exact ⟨_, mem_cons_self, head⟩
    · rcases induction member with ⟨other, otherMember, isRelated⟩
      exact ⟨other, mem_cons_of_mem _ otherMember, isRelated⟩

theorem kvGet_value_iff {key value : Bytes} {version : UInt64}
    (unlocked : store .lock = OrderedMap.empty) :
    (kvGet { key, version }).run store = .ok (.ok (some value)) ↔
      ((MvccTxn.new version).readCommitted key).run store = .ok (some value) := by
  have noLock := lockOn_of_empty unlocked key
  cases read : ((MvccTxn.new version).readCommitted key).run store with
  | ok found =>
    rw [run_kvGet read, noLock]
    simp [GetRequest.answer, GetResponse.ok_inj]
  | error fault =>
    refine iff_of_false ?_ (by simp)
    rw [kvGet, run_bind, run_getLock]
    change (lockOn store key >>= _) ≠ _
    rw [noLock]
    change (getUnlocked _).run store ≠ _
    rw [getUnlocked, run_bind, run_attempt, run_getValue noLock (by simp), read]
    cases fault with
    | panic message =>
      rintro ⟨⟩
    | error message =>
      change Reading.run store (if _ then getLock key >>= _ else _) ≠ _
      split
      · rw [run_bind, run_getLock]
        change (lockOn store key >>= _) ≠ _
        rw [noLock]
        change Except.ok (GetResponse.ok none) ≠ .ok (.ok (some value))
        simp [GetResponse.ok_inj]
      · rintro ⟨⟩

theorem not_misreads_of_versioned (versioned : Versioned (store .write)) (startTs : UInt64)
    (key : Bytes) : ¬ ScanMisreads store startTs key := by
  have readable {entry : Bytes × Bytes} (member : entry ∈ versionsOf store key) :
      ∃ ts write, decodeTimestamp entry.1 = .ok ts ∧ Write.parse entry.2 = .ok (some write) := by
    rcases versioned entry (isVersionOf_of_mem member).1 with ⟨other, ts, write, rfl⟩
    exact ⟨ts, write, decodeTimestamp_encodeKey other ts, Write.parse_toBytes write⟩
  rintro (⟨fault, stops⟩ | ⟨_, entry, passed, garbled⟩)
  · rcases exists_of_findSome?_eq_some stops with ⟨entry, member, isRecord⟩
    rcases readable member with ⟨ts, write, timed, parsed⟩
    by_cases hidden : startTs < ts <;>
      simp [recordOf, Scanner.visibleWrite, timed, parsed, hidden] at isRecord
  · rcases readable (takeWhile_sublist _ |>.subset passed) with ⟨_, write, _, parsed⟩
    rcases garbled with ⟨_, message, _, _, failed⟩
    cases parsed.symm.trans failed

section Taking

variable {shown : List (Bytes × Fallible Bytes)}
  (ascending : shown.Pairwise fun left right => left.1 < right.1) {element : Bytes × Fallible Bytes}
  {limit : Nat}

include ascending

theorem taken_below (member : element ∈ shown) (notTaken : element ∉ shown.take limit) :
    (shown.take limit).length = limit ∧ ∀ other ∈ shown.take limit, other.1 < element.1 := by
  have split := take_append_drop limit shown
  have left : element ∈ shown.drop limit := by
    rw [← split] at member
    exact (mem_append.mp member).resolve_left notTaken
  rw [← split, pairwise_append] at ascending
  refine ⟨?_, fun other taken => ascending.2.2 other taken _ left⟩
  have dropped := length_pos_of_mem left
  rw [length_drop] at dropped
  rw [length_take]
  omega

theorem nodup_keys : (shown.map Prod.fst).Nodup := by
  rw [nodup_iff_pairwise_ne, pairwise_map]
  exact ascending.imp fun less => less.ne

theorem length_lt_of_taken (taken : element ∈ shown.take limit) {keys : List Bytes}
    (distinct : keys.Nodup)
    (below : ∀ key ∈ keys, key < element.1 ∧ ∃ value, (key, value) ∈ shown) :
    keys.length < limit := by
  have all : element.1 :: keys ⊆ (shown.take limit).map Prod.fst := by
    rw [cons_subset]
    refine ⟨mem_map_of_mem taken, ?_⟩
    intro key listed
    rcases below key listed with ⟨less, value, isShown⟩
    by_contra absent
    have after := (taken_below ascending isShown fun isTaken => absent (mem_map_of_mem isTaken)).2
    exact lt_asymm less (after element taken)
  have fresh : (element.1 :: keys).Nodup :=
    nodup_cons.mpr ⟨fun listed => lt_irrefl _ (below _ listed).1, distinct⟩
  have shorter := (fresh.subperm all).length_le
  rw [length_map, length_take, length_cons] at shorter
  omega

end Taking

theorem forall₂_take_filterMap {relation : α → β → Prop} {choose : α → Option β}
    {elements : List α} {limit : Nat}
    (each : ∀ element ∈ elements.take limit,
      ∃ chosen, choose element = some chosen ∧ relation element chosen) :
    List.Forall₂ relation (elements.take limit) ((elements.filterMap choose).take limit) := by
  induction elements generalizing limit with
  | nil => simp
  | cons element rest induction =>
    cases limit with
    | zero => simp
    | succ limit =>
      rw [take_succ_cons, forall_mem_cons] at each
      rcases each.1 with ⟨chosen, isChosen, related⟩
      rw [filterMap_cons_some isChosen]
      exact .cons related (induction each.2)

end Agreement

/-- Without locks, `kv_scan` returns the first pairs of all that point reads return, exactly if
the limit ends it before every key that it misreads. -/
theorem kvScan_agrees_with_kvGet (store : FlatStore) (req : ScanRequest)
    (unlocked : store .lock = OrderedMap.empty) (present : PutsPresent store) :
    (∃ all : List (Bytes × Bytes), (all.Pairwise fun left right => left.1 < right.1) ∧
      (∀ key value, (key, value) ∈ all ↔ req.startKey ≤ key ∧
        (kvGet { key, version := req.version }).run store = .ok (.ok (some value))) ∧
      (kvScan req).run store =
        .ok (.ok ((all.take req.limit.toNat).map fun pair => .new pair.1 pair.2))) ↔
    ∀ key, req.startKey ≤ key → ScanMisreads store req.version key →
      ∃ keys : List Bytes, keys.Nodup ∧ keys.length = req.limit.toNat ∧
        ∀ other ∈ keys, req.startKey ≤ other ∧ other < key ∧
          ScanFinds store req.version other := by
  have ascending := shown_ascending req store
  simp only [kvGet_value_iff unlocked]
  constructor
  · intro agrees key inRange misreads
    rcases agrees with ⟨all, _, isAll, returned⟩
    have pairs := kvScan_eq_ok_iff.mp returned
    rcases Option.isSome_iff_exists.mp (scannedValue_of_misreads present misreads) with
      ⟨outcome, isOutcome⟩
    have notTaken : (key, outcome) ∉ (req.shown store).take req.limit.toNat := by
      intro taken
      rcases exists_mem_of_forall₂ pairs.flip taken with ⟨pair, member, returns⟩
      rcases mem_map.mp member with ⟨⟨other, value⟩, isTaken, rfl⟩
      have same : other = key := ScanRequest.Returns.key_eq returns
      have read := ((isAll key value).mp (same ▸ mem_of_mem_take isTaken)).2
      exact ((readCommitted_iff_scanned present).mp read).2 misreads
    rcases taken_below ascending (mem_shown_iff.mpr ⟨inRange, isOutcome⟩) notTaken with
      ⟨full, below⟩
    refine ⟨((req.shown store).take req.limit.toNat).map Prod.fst,
      nodup_keys (ascending.sublist (take_sublist _ _)), by rw [length_map, full], ?_⟩
    intro other listed
    rcases mem_map.mp listed with ⟨element, taken, rfl⟩
    rcases exists_mem_of_forall₂ pairs.flip taken with ⟨pair, _, value, _, isValue, _⟩
    rcases mem_shown_iff.mp (mem_of_mem_take taken) with ⟨otherInRange, shows_⟩
    refine ⟨otherInRange, below element taken, (scanFinds_iff present).mpr ⟨value, ?_⟩⟩
    rw [shows_, isValue]
  · intro ends
    classical
    let choose (element : Bytes × Fallible Bytes) : Option (Bytes × Bytes) :=
      if ScanMisreads store req.version element.1 then none
      else element.2.toOption.map (element.1, ·)
    have chosen_iff {element : Bytes × Fallible Bytes} {pair : Bytes × Bytes} :
        choose element = some pair ↔
          ¬ ScanMisreads store req.version element.1 ∧ element = (pair.1, .ok pair.2) := by
      rcases element with ⟨key, _ | value⟩ <;>
        by_cases misreads : ScanMisreads store req.version key
      all_goals simp [choose, misreads, Except.toOption, Prod.ext_iff]
    refine ⟨(req.shown store).filterMap choose, ?_, ?_, ?_⟩
    · rw [pairwise_filterMap]
      refine ascending.imp ?_
      intro left right less pair isPair other isOther
      rwa [(chosen_iff.mp isPair).2, (chosen_iff.mp isOther).2] at less
    · intro key value
      simp only [mem_filterMap, chosen_iff, exists_eq_right_right, mem_shown_iff, and_assoc,
        readCommitted_iff_scanned present]
    · rw [kvScan_eq_ok_iff]
      refine List.forall₂_map_right_iff.mpr (forall₂_take_filterMap ?_)
      rintro ⟨key, outcome⟩ taken
      rcases mem_shown_iff.mp (mem_of_mem_take taken) with ⟨inRange, shows_⟩
      have clean : ¬ ScanMisreads store req.version key := by
        intro misreads
        rcases ends key inRange misreads with ⟨keys, distinct, full, below⟩
        refine (length_lt_of_taken ascending taken distinct fun other listed => ?_).ne full
        rcases below other listed with ⟨otherInRange, less, finds⟩
        rcases (scanFinds_iff present).mp finds with ⟨value, isValue⟩
        exact ⟨less, .ok value, mem_shown_iff.mpr ⟨otherInRange, isValue⟩⟩
      cases outcome with
      | error fault => exact absurd (misreads_of_fault present shows_) clean
      | ok value =>
        exact ⟨(key, value), chosen_iff.mpr ⟨clean, rfl⟩, value, none, rfl,
          lockOn_of_empty unlocked key, rfl⟩

def versionedStore : FlatStore :=
  FlatStore.empty.write ([.putValue 1 [1] [7], .putWrite [1] 2 { startTs := 1, kind := .put },
    .putValue 4 [1] [8], .putWrite [1] 9 { startTs := 4, kind := .put },
    .putWrite [2] 3 { startTs := 1, kind := .delete }].flatMap PutCall.writes)

theorem versioned_versionedStore : Versioned (versionedStore .write) := by
  have unlocked : (FlatStore.empty .lock).get? [1] = none := rfl
  exact (PutCall.shows_of_calls _ rfl rfl unlocked).2

theorem kvScan_agrees_over_versions :
    ∃ all : List (Bytes × Bytes), (all.Pairwise fun left right => left.1 < right.1) ∧
      (∀ key value, (key, value) ∈ all ↔ [] ≤ key ∧
        (kvGet { key, version := 6 }).run versionedStore = .ok (.ok (some value))) ∧
      (kvScan { startKey := [], limit := 10, version := 6 }).run versionedStore =
        .ok (.ok ((all.take 10).map fun pair => .new pair.1 pair.2)) :=
  (kvScan_agrees_with_kvGet versionedStore { startKey := [], limit := 10, version := 6 }
    (by decide +kernel) (by decide +kernel)).mpr
    fun key _ misreads => absurd misreads (not_misreads_of_versioned versioned_versionedStore 6 key)

def garbledStore : FlatStore :=
  FlatStore.empty.write [.put (encodeKey [1] 5) [9] .write,
    .put (encodeKey [1] 2) (Write.toBytes { startTs := 1, kind := .put }) .write,
    .put (encodeKey [1] 1) [7] .default]

/-- A scan passes over a record that cannot be read, where a point read fails. -/
theorem kvScan_passes_over_garbage :
    garbledStore .lock = OrderedMap.empty ∧ PutsPresent garbledStore ∧
      (kvGet { key := [1], version := 6 }).run garbledStore = .error (.error
        ("failed to parse write: " ++
          "mvcc/write/ParseWrite: value is incorrect length, expected 9, found 1")) ∧
      (kvScan { startKey := [], limit := 10, version := 6 }).run garbledStore =
        .ok (.ok [.new [1] [7]]) := by
  decide +kernel

/-! ## Locked keys -/

section Locked

variable {store : FlatStore} {req : ScanRequest} {key : Bytes} {value : Fallible Bytes}
  {lock : Lock} {response : ScanResponse}

theorem mem_take_shown (member : (key, value) ∈ req.shown store)
    (returned : (kvScan req).run store = .ok response)
    (room : (response.pairs.filter fun pair => pair.key < key).length < req.limit.toNat) :
    (key, value) ∈ (req.shown store).take req.limit.toNat := by
  have pairs := kvScan_eq_ok_iff.mp returned
  by_contra notReached
  rcases taken_below (shown_ascending req store) member notReached with ⟨full, below⟩
  have smaller : ∀ pair ∈ response.pairs, pair.key < key := by
    intro pair isReturned
    rcases exists_mem_of_forall₂ pairs isReturned with ⟨shown, isShown, returns⟩
    rw [returns.key_eq]
    exact below shown isShown
  have all : (response.pairs.filter fun pair => pair.key < key) = response.pairs :=
    filter_eq_self.mpr (by simpa using smaller)
  rw [all, ← pairs.length_eq, full] at room
  exact lt_irrefl _ room

end Locked

/-- When a scan returns, a key locked by another transaction has a pair with the error
`locked` exactly if the scanner shows a value of it. -/
theorem locked_mem_pairs_iff (store : FlatStore) (req : ScanRequest) (response : ScanResponse)
    (key : Bytes) (lock : Lock) (returned : (kvScan req).run store = .ok response)
    (inRange : req.startKey ≤ key) (locked : lockOn store key = .ok (some lock))
    (foreign : lock.ts ≠ req.version)
    (room : (response.pairs.filter fun pair => pair.key < key).length < req.limit.toNat) :
    KvPair.withError key (.ofLocked (lockInfo key lock)) ∈ response.pairs ↔
      (scannedValue store req.version key).isSome := by
  have pairs := kvScan_eq_ok_iff.mp returned
  rw [Option.isSome_iff_exists]
  constructor
  · intro member
    rcases exists_mem_of_forall₂ pairs member with ⟨shown, isShown, returns⟩
    have shows_ := (mem_shown_iff.mp (mem_of_mem_take isShown)).2
    rw [← returns.key_eq] at shows_
    exact ⟨shown.2, shows_⟩
  · intro shows_
    rcases shows_ with ⟨value, shows_⟩
    have reached := mem_take_shown (mem_shown_iff.mpr ⟨inRange, shows_⟩) returned room
    rcases exists_mem_of_forall₂ pairs.flip reached with ⟨pair, member, returns⟩
    rcases returns with ⟨found, held, _, isHeld, isPair⟩
    rcases Except.ok.inj (locked.symm.trans isHeld) with rfl
    rw [pair_of_foreign foreign] at isPair
    rw [← isPair]
    exact member

def lockedStore : FlatStore :=
  after [putOne [1] [7] 1, commitOne [1] 1 2, putOne [1] [8] 3, putOne [2] [8] 3]

theorem locked_mem_pairs_of_version :
    KvPair.withError [1] (.ofLocked (lockInfo [1]
        { primary := [1], ts := 3, ttl := 10, kind := .put })) ∈
      [KvPair.withError [1] (.ofLocked (lockInfo [1]
        { primary := [1], ts := 3, ttl := 10, kind := .put }))] ↔
    (scannedValue lockedStore 4 [1]).isSome :=
  locked_mem_pairs_iff lockedStore { startKey := [], limit := 10, version := 4 } (.ok _) [1] _
    (by decide +kernel) (by decide) (by decide +kernel) (by decide) (by decide)

/-- A scan returns nothing for a key that has been prewritten for the first time, where a
point read answers that it is locked. -/
theorem kvScan_skips_first_prewrite :
    lockOn lockedStore [2] = .ok (some { primary := [2], ts := 3, ttl := 10, kind := .put }) ∧
      (kvGet { key := [2], version := 4 }).run lockedStore = .ok (.withKeyError (.ofLocked
        (lockInfo [2] { primary := [2], ts := 3, ttl := 10, kind := .put }))) ∧
      (kvScan { startKey := [2], limit := 10, version := 4 }).run lockedStore = .ok (.ok []) := by
  decide +kernel

end AegisDB.Server
