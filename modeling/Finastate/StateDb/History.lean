import Finastate.StateDb.Basic
import Finastate.StateDb.OneNode

/-!
# The history of states

A node that is written stays where it is, and a node that is written there
again is the same. So what a root denotes is still there after any number of
updates, of whichever root.
-/

namespace Finastate.StateDb

variable {l : HashLength} (lib : Library l) (dbColumn : Nat)

/-- The nodes that are inserted. -/
def insertedNodes (ops : List (HashDbOp l)) : List DBValue :=
  ops.filterMap fun
    | .insert _ value => some value
    | .remove _ _ => none

/-- The nodes that an update of the database inserts. -/
def StateDB.inserted {lib : Library l} (statedb : StateDB lib) (root : Bytes)
    (data : List (DBKey × Option DBValue)) : List DBValue :=
  match (do statedb.changes (← typedRoot l root) data) with
  | .ok (_, ops) => insertedNodes ops
  | .error _ => []

/-- The map after a batch. -/
def Contents.applyAll (m : Contents) (data : List (DBKey × Option DBValue)) : Contents :=
  data.foldl Contents.apply m

/-- A root and the map that it denotes. -/
abbrev Entry := Bytes × Contents

/-- The default root and what it denotes come first. -/
def known (l : HashLength) (history : List Entry) : List Entry :=
  (defaultRoot l, .empty) :: history

/-- The databases that are reached from one with an empty column when every update is written,
with the roots that were returned and the nodes that were inserted. The other columns may be
written at any time. -/
inductive Run : DB → List Entry → List DBValue → Prop
  | start {db : DB} (hempty : ∀ key, db.get dbColumn key = none) : Run db [] []
  | update {db : DB} {history : List Entry} {nodes : List DBValue} {entry : Entry}
      {data : List (DBKey × Option DBValue)} {root : Bytes} {transaction : DBTransaction}
      (hrun : Run db history nodes) (hentry : entry ∈ known l history)
      (hupdate : (⟨db, dbColumn⟩ : StateDB lib).prepareUpdate entry.1 data =
        .ok (root, transaction)) :
      Run (db.write transaction) ((root, entry.2.applyAll data) :: history)
        ((⟨db, dbColumn⟩ : StateDB lib).inserted entry.1 data ++ nodes)
  | write {db : DB} {history : List Entry} {nodes : List DBValue} {transaction : DBTransaction}
      (hrun : Run db history nodes) (hcol : ∀ op ∈ transaction, op.col ≠ dbColumn) :
      Run (db.write transaction) history nodes

/-- No two of the nodes have the same hash, and none has that of zeros. -/
structure CollisionFree (nodes : List DBValue) : Prop where
  inj : ∀ v ∈ lib.nullNode :: nodes, ∀ w ∈ lib.nullNode :: nodes, lib.hash v = lib.hash w → v = w
  ne_default : ∀ v ∈ lib.nullNode :: nodes, lib.hash v ≠ defaultRootForHasher l

variable {lib dbColumn}

theorem CollisionFree.mono {nodes nodes' : List DBValue} (h : CollisionFree lib nodes')
    (hsub : ∀ v ∈ nodes, v ∈ nodes') : CollisionFree lib nodes := by
  have hcons : ∀ v ∈ lib.nullNode :: nodes, v ∈ lib.nullNode :: nodes' := fun v hv => by
    rcases List.mem_cons.1 hv with rfl | hv
    · exact List.mem_cons_self
    · exact List.mem_cons_of_mem _ (hsub v hv)
  exact ⟨fun v hv w hw => h.inj v (hcons v hv) w (hcons w hw),
    fun v hv => h.ne_default v (hcons v hv)⟩

/-! ## What a transaction does to the database -/

section Write

variable {db : DB}

theorem DB.write_cons (op : DBOp) (transaction : DBTransaction) :
    db.write (op :: transaction) = (db.apply op).write transaction := rfl

theorem DB.get_write_of_col {transaction : DBTransaction}
    (hcol : ∀ op ∈ transaction, op.col ≠ dbColumn) (key : DBKey) :
    (db.write transaction).get dbColumn key = db.get dbColumn key := by
  induction transaction generalizing db with
  | nil => rfl
  | cons op transaction ih =>
      rw [DB.write_cons, ih fun op h => hcol op (List.mem_cons_of_mem _ h)]
      have hne : dbColumn ≠ op.col := (hcol op List.mem_cons_self).symm
      have happly : db.apply op dbColumn = db dbColumn := by
        cases op <;> exact Function.update_of_ne hne _ _
      exact congrFun happly key

/-- Insertions into the column. -/
def insertions (dbColumn : Nat) (items : List (DBKey × DBValue)) : DBTransaction :=
  items.map fun item => .insert dbColumn item.1 item.2

theorem DB.get_apply_insert (key key' : DBKey) (value : DBValue) :
    (db.apply (.insert dbColumn key value)).get dbColumn key' =
      if key' = key then some value else db.get dbColumn key' := by
  simp [DB.get, DB.apply, Function.update_apply]

/-- What is in the column was inserted or was there. -/
theorem DB.mem_or_get_of_get_write {items : List (DBKey × DBValue)} {key : DBKey} {value : DBValue}
    (h : (db.write (insertions dbColumn items)).get dbColumn key = some value) :
    (key, value) ∈ items ∨ db.get dbColumn key = some value := by
  induction items generalizing db with
  | nil => exact Or.inr h
  | cons item items ih =>
      rcases ih h with hmem | hget
      · exact Or.inl (List.mem_cons_of_mem _ hmem)
      · rw [DB.get_apply_insert] at hget
        split at hget
        · next heq =>
            cases hget
            exact Or.inl (heq ▸ List.mem_cons_self)
        · exact Or.inr hget

/-- A key that has one value only, inserted or there already. -/
theorem DB.get_write {items : List (DBKey × DBValue)} {key : DBKey} {value : DBValue}
    (hitems : ∀ item ∈ items, item.1 = key → item.2 = value)
    (h : (∃ item ∈ items, item.1 = key) ∨ db.get dbColumn key = some value) :
    (db.write (insertions dbColumn items)).get dbColumn key = some value := by
  induction items generalizing db with
  | nil => exact h.resolve_left fun ⟨item, hmem, _⟩ => List.not_mem_nil hmem
  | cons item items ih =>
      refine ih (fun item' h => hitems item' (List.mem_cons_of_mem _ h)) ?_
      rw [DB.get_apply_insert]
      by_cases heq : key = item.1
      · rw [if_pos heq, hitems item List.mem_cons_self heq.symm]
        exact Or.inr rfl
      · rw [if_neg heq]
        refine h.imp_left ?_
        rintro ⟨item', hmem, hkey⟩
        rcases List.mem_cons.1 hmem with rfl | hmem
        · exact absurd hkey.symm heq
        · exact ⟨item', hmem, hkey⟩

end Write

/-! ## One update -/

/-- What is written for the operations on the buffer. -/
def written (lib : Library l) (ops : List (HashDbOp l)) : List (DBKey × DBValue) :=
  (lib.mem.drain (lib.buffer ops)).filterMap fun (k, v, rc) => if 0 < rc then some (k, v) else none

theorem mem_written {ops : List (HashDbOp l)} {k : DBKey} {v : DBValue} :
    (k, v) ∈ written lib ops ↔ ∃ rc, (k, v, rc) ∈ lib.mem.drain (lib.buffer ops) ∧ 0 < rc := by
  simp only [written, List.mem_filterMap, Option.ite_none_right_eq_some, Option.some.injEq,
    Prod.mk.injEq]
  constructor
  · rintro ⟨⟨k, v, rc⟩, hmem, hpos, rfl, rfl⟩
    exact ⟨rc, hmem, hpos⟩
  · rintro ⟨rc, hmem, hpos⟩
    exact ⟨(k, v, rc), hmem, hpos, rfl, rfl⟩

theorem mem_insertedNodes {ops : List (HashDbOp l)} {v : DBValue} :
    v ∈ insertedNodes ops ↔ ∃ pre, HashDbOp.insert pre v ∈ ops := by
  simp only [insertedNodes, List.mem_filterMap]
  constructor
  · rintro ⟨_ | _, hmem, heq⟩
    · cases heq
      exact ⟨_, hmem⟩
    · cases heq
  · rintro ⟨pre, hmem⟩
    exact ⟨_, hmem, rfl⟩

/-- A key whose insertions do not count was removed. -/
theorem exists_remove {ops : List (HashDbOp l)} {pre : Prefix} {v : DBValue}
    (hmem : HashDbOp.insert pre v ∈ ops) (hne : v ≠ lib.nullNode)
    (hcount : lib.count ops (lib.prefixedKey (lib.hash v) pre) ≤ 0) :
    ∃ h pre', HashDbOp.remove h pre' ∈ ops ∧ h ≠ lib.hash lib.nullNode ∧
      lib.prefixedKey h pre' = lib.prefixedKey (lib.hash v) pre := by
  by_contra hno
  push Not at hno
  set k := lib.prefixedKey (lib.hash v) pre with hk
  have hnonneg : ∀ op ∈ ops, 0 ≤ lib.rc k op := by
    rintro (⟨pre', value⟩ | ⟨h, pre'⟩) hop
    · rw [Library.rc]
      split <;> decide
    · exact (if_neg fun ⟨hnull, hkey⟩ => hno h pre' hop hnull hkey).ge
  have hone : lib.rc k (.insert pre v) = 1 := by
    rw [Library.rc, if_pos ⟨hne, hk.symm⟩]
  have hle : lib.rc k (.insert pre v) ≤ (ops.map (lib.rc k)).sum :=
    List.single_le_sum (by simpa using hnonneg) _ (List.mem_map_of_mem hmem)
  rw [hone] at hle
  exact absurd hcount (by rw [Library.count]; omega)

namespace StateDB

variable {Trie : HashGet l → Out l → Contents → Prop}
  {Pending : HashGet l → lib.trie.Mut → Contents → Prop} (hlib : lib.Correct Trie Pending)

include hlib in
theorem get_proxy (statedb : StateDB lib) (h : Out l) (pre : Prefix) :
    statedb.proxy.get h pre =
      if h = lib.hash lib.nullNode then some lib.nullNode
      else statedb.db.get statedb.dbColumn (lib.prefixedKey h pre) := by
  rw [ProxyHashDB.get, proxy, hlib.get_default]
  by_cases hnull : h = lib.hash lib.nullNode
  · simp only [if_pos hnull]
  · simp only [if_neg hnull]

theorem transaction_eq (statedb : StateDB lib) (ops : List (HashDbOp l)) :
    statedb.transaction ops = insertions statedb.dbColumn (written lib ops) := by
  rw [transaction, insertions, written, List.map_filterMap]
  congr 1
  funext ⟨k, v, rc⟩
  by_cases hpos : 0 < rc <;> simp [hpos]

/-- The database when the operations are written. -/
def write (statedb : StateDB lib) (ops : List (HashDbOp l)) : StateDB lib where
  db := statedb.db.write (statedb.transaction ops)
  dbColumn := statedb.dbColumn

/-- Every value of the column is one of the nodes, under its hash. -/
def Stored (statedb : StateDB lib) (nodes : List DBValue) : Prop :=
  ∀ key v, statedb.db.get statedb.dbColumn key = some v →
    v ∈ nodes ∧ ∃ pre, lib.prefixedKey (lib.hash v) pre = key

variable {statedb : StateDB lib} {nodes : List DBValue}

include hlib

theorem Stored.sound (hstored : Stored statedb nodes) : lib.Sound statedb.proxy.get := by
  intro h pre v hget
  rw [get_proxy hlib] at hget
  split at hget
  · next hnull =>
      cases hget
      exact hnull.symm
  · obtain ⟨-, pre', hkey⟩ := hstored _ v hget
    exact hlib.prefixedKey_inj hkey

/-- A root node is not the node of the default root. -/
theorem Stored.ne_default (hstored : Stored statedb nodes) (hfree : CollisionFree lib nodes)
    {root : Out l} {m : Contents} (htrie : Trie statedb.proxy.get root m) :
    root ≠ defaultRootForHasher l := by
  obtain ⟨v, hroot⟩ := hlib.exists_root htrie
  rw [get_proxy hlib] at hroot
  split at hroot
  · next hnull => exact hnull ▸ hfree.ne_default _ List.mem_cons_self
  · obtain ⟨hmem, pre, hkey⟩ := hstored _ v hroot
    exact hlib.prefixedKey_inj hkey ▸ hfree.ne_default v (List.mem_cons_of_mem _ hmem)

theorem applyData_spec {get : HashGet l} {triedb : lib.trie.Mut} {m : Contents}
    (h : Pending get triedb m) (data : List (DBKey × Option DBValue)) :
    ∃ triedb', applyData get triedb data = .ok triedb' ∧
      Pending get triedb' (m.applyAll data) := by
  induction data generalizing triedb m with
  | nil => exact ⟨triedb, rfl, h⟩
  | cons item data ih =>
      obtain ⟨k, _ | v⟩ := item
      · obtain ⟨triedb', hremove, h'⟩ := hlib.remove h k
        obtain ⟨triedb'', hdata, h''⟩ := ih h'
        refine ⟨triedb'', ?_, h''⟩
        rw [applyData, hremove]
        exact hdata
      · obtain ⟨triedb', hinsert, h'⟩ := hlib.insert h k v
        obtain ⟨triedb'', hdata, h''⟩ := ih h'
        refine ⟨triedb'', ?_, h''⟩
        rw [applyData, hinsert]
        exact hdata

/-- The changes are those of a trie in memory for the new map. -/
theorem changes_default (hstored : Stored statedb nodes)
    (data : List (DBKey × Option DBValue)) :
    ∃ triedb, statedb.changes (defaultRootForHasher l) data = .ok (lib.trie.commit triedb) ∧
      Pending statedb.proxy.get triedb (Contents.empty.applyAll data) := by
  obtain ⟨triedb, hdata, h⟩ := applyData_spec hlib (hlib.new (hstored.sound hlib)) data
  refine ⟨triedb, ?_, h⟩
  simp only [changes, decide_true]
  change (applyData statedb.proxy.get lib.trie.new data >>= _) = _
  rw [hdata]
  rfl

theorem changes_trie (hstored : Stored statedb nodes) {root : Out l} {m : Contents}
    (hne : root ≠ defaultRootForHasher l) (htrie : Trie statedb.proxy.get root m)
    (data : List (DBKey × Option DBValue)) :
    ∃ triedb, statedb.changes root data = .ok (lib.trie.commit triedb) ∧
      Pending statedb.proxy.get triedb (m.applyAll data) := by
  obtain ⟨mt, hexisting, h⟩ := hlib.fromExisting (hstored.sound hlib) htrie
  obtain ⟨triedb, hdata, h⟩ := applyData_spec hlib h data
  refine ⟨triedb, ?_, h⟩
  simp only [changes, decide_eq_false hne.symm, hexisting]
  change (applyData statedb.proxy.get mt data >>= _) = _
  rw [hdata]
  rfl

theorem Stored.write (hstored : Stored statedb nodes) (ops : List (HashDbOp l)) :
    Stored (statedb.write ops) (insertedNodes ops ++ nodes) := by
  intro key v hget
  rw [StateDB.write, transaction_eq] at hget
  rcases DB.mem_or_get_of_get_write hget with hmem | hget
  · obtain ⟨rc, hmem, hpos⟩ := mem_written.1 hmem
    obtain ⟨pre, hinsert, hkey⟩ := hlib.drain_value hmem hpos
    exact ⟨List.mem_append_left _ (mem_insertedNodes.2 ⟨pre, hinsert⟩), pre, hkey⟩
  · obtain ⟨hmem, hkey⟩ := hstored key v hget
    exact ⟨List.mem_append_right _ hmem, hkey⟩

section Write

variable {ops : List (HashDbOp l)} (hfree : CollisionFree lib (insertedNodes ops ++ nodes))

include hfree

/-- What is written under the key of a node is the node. -/
theorem eq_of_written {v : DBValue} (hv : v ∈ insertedNodes ops ++ nodes) {pre : Prefix} :
    ∀ item ∈ written lib ops, item.1 = lib.prefixedKey (lib.hash v) pre → item.2 = v := by
  rintro ⟨k, w⟩ hmem hkey
  obtain ⟨rc, hmem, hpos⟩ := mem_written.1 hmem
  obtain ⟨pre', hinsert, hkey'⟩ := hlib.drain_value hmem hpos
  have hw : w ∈ insertedNodes ops ++ nodes :=
    List.mem_append_left _ (mem_insertedNodes.2 ⟨pre', hinsert⟩)
  exact hfree.inj w (List.mem_cons_of_mem _ hw) v (List.mem_cons_of_mem _ hv)
    (hlib.prefixedKey_inj (hkey'.trans hkey))

/-- Nothing is lost. -/
theorem extends_write (hstored : Stored statedb nodes) :
    Library.Extends statedb.proxy.get (statedb.write ops).proxy.get := by
  intro h pre v hget
  rw [get_proxy hlib] at hget ⊢
  by_cases hnull : h = lib.hash lib.nullNode
  · rwa [if_pos hnull] at hget ⊢
  · rw [if_neg hnull] at hget ⊢
    obtain ⟨hmem, pre', hkey⟩ := hstored _ v hget
    rw [write, transaction_eq, ← hkey]
    rw [← hkey] at hget
    exact DB.get_write (eq_of_written hlib hfree (List.mem_append_right _ hmem)) (Or.inr hget)

/-- What was inserted is there: it was written, or it had been there before it was removed. -/
theorem get_write (hstored : Stored statedb nodes)
    (hremove : ∀ h pre, HashDbOp.remove h pre ∈ ops → ∃ v, statedb.proxy.get h pre = some v)
    {pre : Prefix} {v : DBValue} (hinsert : HashDbOp.insert pre v ∈ ops) :
    (statedb.write ops).proxy.get (lib.hash v) pre = some v := by
  have hv : v ∈ insertedNodes ops ++ nodes :=
    List.mem_append_left _ (mem_insertedNodes.2 ⟨pre, hinsert⟩)
  rw [get_proxy hlib]
  split
  · next hnull =>
      have heq : v = lib.nullNode :=
        hfree.inj v (List.mem_cons_of_mem _ hv) _ List.mem_cons_self hnull
      rw [heq]
  · next hnull =>
      rw [write, transaction_eq]
      refine DB.get_write (eq_of_written hlib hfree hv) ?_
      rcases lt_or_ge 0 (lib.count ops (lib.prefixedKey (lib.hash v) pre)) with hpos | hle
      · obtain ⟨w, rc, hmem⟩ := hlib.mem_drain hpos
        rw [← hlib.drain_count hmem] at hpos
        exact Or.inl ⟨_, mem_written.2 ⟨rc, hmem, hpos⟩, rfl⟩
      · have hne : v ≠ lib.nullNode := fun heq => hnull (heq ▸ rfl)
        obtain ⟨h, pre', hmem, hne', hkey⟩ := exists_remove hinsert hne hle
        obtain ⟨w, hget⟩ := hremove h pre' hmem
        rw [get_proxy hlib, if_neg hne', hkey] at hget
        obtain ⟨hw, pre'', hkey'⟩ := hstored _ w hget
        have heq : w = v :=
          hfree.inj w (List.mem_cons_of_mem _ (List.mem_append_right _ hw)) v
            (List.mem_cons_of_mem _ hv) (hlib.prefixedKey_inj hkey')
        exact Or.inr (heq ▸ hget)

end Write

end StateDB

/-! ## All updates -/

theorem typedRoot_coe (root : Out l) : typedRoot l root.1 = .ok root := dif_pos root.2

section

variable {Trie : HashGet l → Out l → Contents → Prop}
  {Pending : HashGet l → lib.trie.Mut → Contents → Prop} (hlib : lib.Correct Trie Pending)

/-- Every root that was returned is that of a trie for its map. -/
structure StateDB.Kept (Trie : HashGet l → Out l → Contents → Prop) (statedb : StateDB lib)
    (history : List Entry) (nodes : List DBValue) : Prop where
  stored : statedb.Stored nodes
  entries : ∀ entry ∈ history, ∃ root : Out l, root.1 = entry.1 ∧
    Trie statedb.proxy.get root entry.2

variable {statedb : StateDB lib} {history : List Entry} {nodes : List DBValue} {entry : Entry}

include hlib

theorem StateDB.Kept.changes (h : statedb.Kept Trie history nodes)
    (hfree : CollisionFree lib nodes) (hentry : entry ∈ known l history)
    (data : List (DBKey × Option DBValue)) :
    ∃ root triedb, typedRoot l entry.1 = .ok root ∧
      statedb.changes root data = .ok (lib.trie.commit triedb) ∧
        Pending statedb.proxy.get triedb (entry.2.applyAll data) := by
  rcases List.mem_cons.1 hentry with rfl | hentry
  · obtain ⟨triedb, hchanges, hpending⟩ := changes_default hlib h.stored data
    exact ⟨_, triedb, typedRoot_coe (defaultRootForHasher l), hchanges, hpending⟩
  · obtain ⟨root, hroot, htrie⟩ := h.entries entry hentry
    have hne := h.stored.ne_default hlib hfree htrie
    obtain ⟨triedb, hchanges, hpending⟩ := changes_trie hlib h.stored hne htrie data
    exact ⟨root, triedb, hroot ▸ typedRoot_coe root, hchanges, hpending⟩

/-- A trie that is committed leaves the others as they are. -/
theorem StateDB.Kept.write (h : statedb.Kept Trie history nodes) {triedb : lib.trie.Mut}
    {m : Contents} (hpending : Pending statedb.proxy.get triedb m)
    (hfree : CollisionFree lib (insertedNodes (lib.trie.commit triedb).2 ++ nodes)) :
    (statedb.write (lib.trie.commit triedb).2).Kept Trie
      (((lib.trie.commit triedb).1.1, m) :: history)
      (insertedNodes (lib.trie.commit triedb).2 ++ nodes) := by
  have hstored := h.stored.write hlib (lib.trie.commit triedb).2
  have hextends := StateDB.extends_write hlib hfree h.stored
  refine ⟨hstored, fun entry hentry => ?_⟩
  rcases List.mem_cons.1 hentry with rfl | hentry
  · refine ⟨_, rfl, hlib.commit hpending (hstored.sound hlib) hextends fun pre v hinsert => ?_⟩
    exact StateDB.get_write hlib hfree h.stored (hlib.mem_of_remove hpending) hinsert
  · obtain ⟨root, hroot, htrie⟩ := h.entries entry hentry
    exact ⟨root, hroot, hlib.grow htrie hextends⟩

/-- Other columns do not matter. -/
theorem StateDB.Kept.of_get_eq (h : statedb.Kept Trie history nodes) {statedb' : StateDB lib}
    (hget : ∀ key, statedb'.db.get statedb'.dbColumn key = statedb.db.get statedb.dbColumn key) :
    statedb'.Kept Trie history nodes := by
  have hproxy : statedb'.proxy.get = statedb.proxy.get := by
    funext hash pre
    rw [get_proxy hlib, get_proxy hlib, hget]
  refine ⟨fun key v hv => h.stored key v (hget key ▸ hv), fun entry hentry => ?_⟩
  rw [hproxy]
  exact h.entries entry hentry

/-- What is read under a root. -/
theorem StateDB.Kept.read (h : statedb.Kept Trie history nodes)
    (hfree : CollisionFree lib nodes) (hentry : entry ∈ known l history) (key : DBKey) :
    statedb.read entry.1 key = .ok (entry.2 key) := by
  rcases List.mem_cons.1 hentry with rfl | hentry
  · simp [StateDB.read, StateDB.prepareStmt, StateDB.prepareGet, StateDBGetter.get, defaultRoot,
      typedRoot_coe, Contents.empty, bind, Except.bind, pure, Except.pure]
  · obtain ⟨root, hroot, htrie⟩ := h.entries entry hentry
    have hne : ¬ (defaultRootForHasher l).1 = root.1 := fun heq =>
      h.stored.ne_default hlib hfree htrie (Subtype.ext heq).symm
    have hopen := hlib.openDb_eq htrie
    have hget := hlib.get_eq htrie key
    simp [StateDB.read, StateDB.prepareStmt, StateDB.prepareGet, StateDBGetter.get, defaultRoot,
      ← hroot, typedRoot_coe, hne, hopen, hget, parseTrieError, Except.mapError, bind,
      Except.bind, pure, Except.pure]

end

theorem Run.kept {Trie : HashGet l → Out l → Contents → Prop}
    {Pending : HashGet l → lib.trie.Mut → Contents → Prop} (hlib : lib.Correct Trie Pending)
    {db : DB} {history : List Entry} {nodes : List DBValue}
    (hrun : Run lib dbColumn db history nodes) (hfree : CollisionFree lib nodes) :
    (⟨db, dbColumn⟩ : StateDB lib).Kept Trie history nodes := by
  induction hrun with
  | start hempty => exact ⟨fun key v hget => by simp [hempty] at hget, nofun⟩
  | @update db history nodes entry data root transaction hrun hentry hupdate ih =>
      have hfree' := hfree.mono fun v hv => List.mem_append_right _ hv
      have hkept := ih hfree'
      obtain ⟨root', triedb, hroot, hchanges, hpending⟩ := hkept.changes hlib hfree' hentry data
      have hinserted : (⟨db, dbColumn⟩ : StateDB lib).inserted entry.1 data =
          insertedNodes (lib.trie.commit triedb).2 := by
        simp [StateDB.inserted, hroot, hchanges, bind, Except.bind]
      have hresult : ((lib.trie.commit triedb).1.1, (⟨db, dbColumn⟩ : StateDB lib).transaction
          (lib.trie.commit triedb).2) = (root, transaction) := by
        simpa [StateDB.prepareUpdate, StateDB.prepareUpdateForHasher, hroot, hchanges, bind,
          Except.bind, pure, Except.pure] using hupdate
      obtain ⟨rfl, rfl⟩ := Prod.mk.inj hresult
      rw [hinserted] at hfree ⊢
      exact hkept.write hlib hpending hfree
  | write hrun hcol ih =>
      exact (ih hfree).of_get_eq hlib fun key => DB.get_write_of_col hcol key

/-- After any updates every root that was returned, and the default root, still yields the map
it denoted, and can be updated. -/
theorem Run.persistent {Trie : HashGet l → Out l → Contents → Prop}
    {Pending : HashGet l → lib.trie.Mut → Contents → Prop} (hlib : lib.Correct Trie Pending)
    {db : DB} {history : List Entry} {nodes : List DBValue}
    (hrun : Run lib dbColumn db history nodes) (hfree : CollisionFree lib nodes) :
    ∀ entry ∈ known l history,
      (∀ key, (⟨db, dbColumn⟩ : StateDB lib).read entry.1 key = .ok (entry.2 key)) ∧
        ∀ data, ∃ result, (⟨db, dbColumn⟩ : StateDB lib).prepareUpdate entry.1 data =
          .ok result := by
  have hkept := hrun.kept hlib hfree
  intro entry hentry
  refine ⟨hkept.read hlib hfree hentry, fun data => ?_⟩
  obtain ⟨root, triedb, hroot, hchanges, -⟩ := hkept.changes hlib hfree hentry data
  simp [StateDB.prepareUpdate, StateDB.prepareUpdateForHasher, hroot, hchanges, bind,
    Except.bind, pure, Except.pure]

/-! ## A value that is inserted and removed again -/

def node : DBValue := OneNode.encodeNode [([97], [1])]

def root : Bytes := (OneNode.hash .hashLength20 node).1

/-- The database that `root` was written to. -/
def once : DB := DB.write (fun _ _ => none) [.insert 3 root node]

theorem run_once : Run (OneNode.library .hashLength20) 3 once
    [(root, Contents.empty.applyAll [([97], some [1])])] [node] := by
  have hupdate : (⟨fun _ _ => none, 3⟩ : StateDB (OneNode.library .hashLength20)).prepareUpdate
      (defaultRoot .hashLength20) [([97], some [1])] = .ok (root, [.insert 3 root node]) := by
    decide +kernel
  exact .update (.start fun _ => rfl) List.mem_cons_self hupdate

/-- The trie is emptied again, which removes the node and writes nothing. -/
theorem persistent_once :
    (⟨once.write [], 3⟩ : StateDB (OneNode.library .hashLength20)).read root [97] =
      .ok (some [1]) := by
  have hupdate : (⟨once, 3⟩ : StateDB (OneNode.library .hashLength20)).prepareUpdate
      root [([97], none)] = .ok ((OneNode.hash .hashLength20 OneNode.nullNode).1, []) := by
    decide +kernel
  have hrun := run_once.update (List.mem_cons_of_mem _ List.mem_cons_self) hupdate
  have hinserted : (⟨once, 3⟩ : StateDB (OneNode.library .hashLength20)).inserted root
      [([97], none)] = [OneNode.nullNode] := by
    decide +kernel
  rw [hinserted] at hrun
  have hfree : CollisionFree (OneNode.library .hashLength20)
      ([OneNode.nullNode] ++ [node]) := by
    constructor <;> decide +kernel
  have hentry : (root, Contents.empty.applyAll [([97], some [1])]) ∈ known .hashLength20
      [((OneNode.hash .hashLength20 OneNode.nullNode).1,
        (Contents.empty.applyAll [([97], some [1])]).applyAll [([97], none)]),
        (root, Contents.empty.applyAll [([97], some [1])])] :=
    List.mem_cons_of_mem _ (List.mem_cons_of_mem _ List.mem_cons_self)
  exact (Run.persistent (OneNode.correct .hashLength20) hrun hfree _ hentry).1 [97]

end Finastate.StateDb
