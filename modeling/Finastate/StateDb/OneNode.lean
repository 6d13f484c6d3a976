import Finastate.StateDb.Library

/-!
# Tries of one node

The simplest library with the properties of `Library.Correct`: the node of a
trie lists all entries, and a commit replaces it.
-/

namespace Finastate.StateDb.OneNode

/-! ## Nodes -/

abbrev Entries := List (DBKey × DBValue)

def encodeField (bs : Bytes) : Bytes := bs.flatMap (fun b => [1, b]) ++ [0]

def decodeField : Bytes → Option (Bytes × Bytes)
  | 0 :: rest => some ([], rest)
  | _ :: b :: rest => (decodeField rest).map fun (bs, rest) => (b :: bs, rest)
  | _ => none

def encodeNode : Entries → Bytes
  | [] => [0]
  | (k, v) :: entries => 1 :: (encodeField k ++ (encodeField v ++ encodeNode entries))

def decodeNode : Nat → Bytes → Entries
  | fuel + 1, 1 :: node =>
      match decodeField node with
      | some (k, node) =>
          match decodeField node with
          | some (v, node) => (k, v) :: decodeNode fuel node
          | none => []
      | none => []
  | _, _ => []

theorem decodeField_encodeField (bs rest : Bytes) :
    decodeField (encodeField bs ++ rest) = some (bs, rest) := by
  induction bs with
  | nil => rfl
  | cons b bs ih =>
      have hcons : encodeField (b :: bs) ++ rest = 1 :: b :: (encodeField bs ++ rest) := by
        simp [encodeField]
      rw [hcons]
      simp [decodeField, ih]

theorem decodeNode_encodeNode (entries : Entries) {fuel : Nat} (h : entries.length ≤ fuel) :
    decodeNode fuel (encodeNode entries) = entries := by
  induction entries generalizing fuel with
  | nil => cases fuel <;> rfl
  | cons entry entries ih =>
      cases fuel with
      | zero => exact absurd h (Nat.not_succ_le_zero _)
      | succ fuel =>
          simp only [encodeNode, decodeNode, decodeField_encodeField]
          rw [ih (Nat.le_of_succ_le_succ h)]

theorem length_le_encodeNode (entries : Entries) :
    entries.length ≤ (encodeNode entries).length := by
  induction entries with
  | nil => exact Nat.zero_le 1
  | cons entry entries ih =>
      simp only [encodeNode, List.length_cons, List.length_append]
      omega

/-- The map of some entries; the first entry of a key counts. -/
def contents (entries : Entries) : Contents := fun k => entries.lookup k

def erase (entries : Entries) (k : DBKey) : Entries := entries.filter fun entry => entry.1 ≠ k

theorem contents_cons (entries : Entries) (k : DBKey) (v : DBValue) :
    contents ((k, v) :: entries) = Function.update (contents entries) k (some v) := by
  funext k'
  by_cases heq : k' = k
  · subst heq
    simp [contents]
  · have hbeq : (k' == k) = false := by simpa using heq
    simp [contents, List.lookup_cons, hbeq, heq]

theorem contents_erase (entries : Entries) (k : DBKey) :
    contents (erase entries k) = Function.update (contents entries) k none := by
  induction entries with
  | nil =>
      funext k'
      by_cases heq : k' = k <;> simp [contents, erase, heq]
  | cons entry entries ih =>
      obtain ⟨k₁, v₁⟩ := entry
      by_cases heq : k₁ = k
      · have hskip : erase ((k₁, v₁) :: entries) k = erase entries k := by simp [erase, heq]
        rw [hskip, ih, contents_cons, heq, Function.update_idem]
      · have hkeep : erase ((k₁, v₁) :: entries) k = (k₁, v₁) :: erase entries k := by
          simp [erase, heq]
        rw [hkeep, contents_cons, ih, contents_cons, Function.update_comm (Ne.symm heq)]

/-! ## The library -/

variable {l : HashLength}

/-- The first bytes, with one before and zeros after them. -/
def hash (l : HashLength) (v : DBValue) : Out l :=
  ⟨((1 :: v) ++ List.replicate l.toNat 0).take l.toNat, by simp; omega⟩

def prefixedKey (key : Out l) (pre : Prefix) : DBKey := pre.1 ++ pre.2.toList ++ key.1

def nullNode : DBValue := [0]

def rc (k : DBKey) : HashDbOp l → Int
  | .insert pre value => if value ≠ nullNode ∧ prefixedKey (hash l value) pre = k then 1 else 0
  | .remove key pre => if key ≠ hash l nullNode ∧ prefixedKey key pre = k then -1 else 0

/-- The reference count of a key after some operations. -/
def count (ops : List (HashDbOp l)) (k : DBKey) : Int := (ops.map (rc k)).sum

/-- The operations so far. -/
def mem (l : HashLength) : MemoryDb l where
  State := List (HashDbOp l)
  default := []
  get ops key pre :=
    if key = hash l nullNode then some nullNode
    else if 0 < count ops (prefixedKey key pre) then
      ops.findSome? fun
        | .insert pre' value =>
            if prefixedKey (hash l value) pre' = prefixedKey key pre then some value else none
        | .remove _ _ => none
    else none
  insert ops pre value := ops ++ [.insert pre value]
  remove ops key pre := ops ++ [.remove key pre]
  drain ops := ops.filterMap fun
    | .insert pre value =>
        let k := prefixedKey (hash l value) pre
        some (k, value, count ops k)
    | .remove _ _ => none

def readNode (get : HashGet l) (root : Out l) : Except String Entries :=
  match get root EMPTY_PREFIX with
  | some node => .ok (decodeNode node.length node)
  | none => .error "Incomplete database"

def trie (l : HashLength) : TrieDb l where
  openDb get root := (readNode get root).map fun _ => ()
  get get root k := (readNode get root).map fun entries => entries.lookup k
  Mut := Option (Out l) × Entries
  new := (none, [])
  fromExisting get root := (readNode get root).map fun entries => (some root, entries)
  insert _ mt k v := .ok (mt.1, if v = [] then erase mt.2 k else (k, v) :: mt.2)
  remove _ mt k := .ok (mt.1, erase mt.2 k)
  commit mt :=
    (hash l (encodeNode mt.2),
      mt.1.toList.map (.remove · EMPTY_PREFIX) ++ [.insert EMPTY_PREFIX (encodeNode mt.2)])

def library (l : HashLength) : Library l where
  hash := hash l
  prefixedKey := prefixedKey
  nullNode := nullNode
  mem := mem l
  trie := trie l

/-- The root node has the entries. -/
def Trie (get : HashGet l) (root : Out l) (m : Contents) : Prop :=
  ∃ entries, get root EMPTY_PREFIX = some (encodeNode entries) ∧ m = contents entries

def Pending (get : HashGet l) (mt : (trie l).Mut) (m : Contents) : Prop :=
  m = contents mt.2 ∧ ∀ root ∈ mt.1, ∃ v, get root EMPTY_PREFIX = some v

theorem buffer_eq (ops : List (HashDbOp l)) : (library l).buffer ops = ops := by
  have happly : (mem l).apply = fun (ops : List (HashDbOp l)) op => ops ++ [op] := by
    funext ops op
    cases op <;> rfl
  have hfold : ∀ init : List (HashDbOp l),
      ops.foldl (fun ops op => ops ++ [op]) init = init ++ ops := by
    induction ops with
    | nil => exact fun init => (List.append_nil init).symm
    | cons op ops ih => exact fun init => (ih _).trans (List.append_assoc init [op] ops)
  change List.foldl (mem l).apply [] ops = ops
  rw [happly]
  exact hfold []

theorem readNode_eq {get : HashGet l} {root : Out l} {entries : Entries}
    (h : get root EMPTY_PREFIX = some (encodeNode entries)) : readNode get root = .ok entries := by
  rw [readNode, h]
  simp only [decodeNode_encodeNode entries (length_le_encodeNode entries)]

theorem mem_drain {ops : List (HashDbOp l)} {k : DBKey} {v : DBValue} {rc : Int} :
    (k, v, rc) ∈ (mem l).drain ops ↔
      rc = count ops k ∧ ∃ pre, HashDbOp.insert pre v ∈ ops ∧ prefixedKey (hash l v) pre = k := by
  simp only [mem, List.mem_filterMap]
  constructor
  · rintro ⟨_ | _, hmem, heq⟩
    · cases heq
      exact ⟨rfl, _, hmem, rfl⟩
    · cases heq
  · rintro ⟨rfl, pre, hmem, rfl⟩
    exact ⟨_, hmem, rfl⟩

/-- What counts was inserted. -/
theorem exists_insert {ops : List (HashDbOp l)} {k : DBKey} (h : 0 < count ops k) :
    ∃ pre v, HashDbOp.insert pre v ∈ ops ∧ prefixedKey (hash l v) pre = k := by
  by_contra hno
  push Not at hno
  have hle : count ops k ≤ 0 := by
    refine (List.sum_le_card_nsmul _ 0 fun x hx => ?_).trans_eq (nsmul_zero _)
    obtain ⟨_ | _, hmem, rfl⟩ := List.mem_map.1 hx
    · exact (if_neg fun h => hno _ _ hmem h.2).le
    · rw [rc]
      split <;> decide
  omega

theorem correct (l : HashLength) : (library l).Correct Trie Pending where
  prefixedKey_inj {h pre h' pre'} heq := by
    have hlen : h.1.length = h'.1.length := h.2.trans h'.2.symm
    exact Subtype.ext (List.append_inj_right' heq hlen)
  get_default h pre := by
    change (if h = hash l nullNode then some nullNode
      else if (0 : Int) < 0 then _ else none) = if h = hash l nullNode then some nullNode else none
    rw [if_neg (lt_irrefl (0 : Int))]
  drain_count {ops k v rc} hmem := by
    rw [buffer_eq] at hmem
    exact (mem_drain.1 hmem).1
  drain_value {ops k v rc} hmem _ := by
    rw [buffer_eq] at hmem
    exact (mem_drain.1 hmem).2
  mem_drain {ops k} hpos := by
    rw [buffer_eq]
    obtain ⟨pre, v, hmem, hkey⟩ := exists_insert hpos
    exact ⟨v, _, mem_drain.2 ⟨rfl, pre, hmem, hkey⟩⟩
  exists_root := fun ⟨entries, hroot, _⟩ => ⟨_, hroot⟩
  openDb_eq := by
    rintro get root _ ⟨entries, hroot, rfl⟩
    change (readNode get root).map _ = _
    rw [readNode_eq hroot]
    rfl
  get_eq := by
    rintro get root _ ⟨entries, hroot, rfl⟩ k
    change (readNode get root).map _ = _
    rw [readNode_eq hroot]
    rfl
  grow := fun ⟨entries, hroot, hm⟩ hextends => ⟨entries, hextends _ _ _ hroot, hm⟩
  new _ := ⟨rfl, nofun⟩
  fromExisting := by
    rintro get root _ _ ⟨entries, hroot, rfl⟩
    refine ⟨(some root, entries), ?_, rfl, ?_⟩
    · change (readNode get root).map _ = _
      rw [readNode_eq hroot]
      rfl
    · intro root' hmem
      cases Option.mem_def.1 hmem
      exact ⟨_, hroot⟩
  insert := by
    rintro get mt _ ⟨rfl, horigin⟩ k v
    refine ⟨_, rfl, ?_, horigin⟩
    by_cases hempty : v = []
    · simp only [Contents.apply, if_pos hempty, contents_erase]
    · simp only [Contents.apply, if_neg hempty, contents_cons]
  remove := by
    rintro get mt _ ⟨rfl, horigin⟩ k
    exact ⟨_, rfl, (contents_erase mt.2 k).symm, horigin⟩
  mem_of_remove := by
    intro get mt m hpending h pre hmem
    rcases List.mem_append.1 hmem with hmem | hmem
    · obtain ⟨root, hroot, heq⟩ := List.mem_map.1 hmem
      cases heq
      exact hpending.2 h (Option.mem_toList.1 hroot)
    · cases List.mem_singleton.1 hmem
  commit := by
    rintro get get' mt _ ⟨rfl, -⟩ - - hinserted
    refine ⟨mt.2, hinserted _ _ ?_, rfl⟩
    exact List.mem_append_right _ (List.mem_singleton_self _)

end Finastate.StateDb.OneNode
