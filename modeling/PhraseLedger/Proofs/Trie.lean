import PhraseLedger.Trie.Basic

/-!
# The trie as a map from paths to logs

Both forms of the children of a node answer alike, so a trie is a map from paths to
logs, and planting or recording changes this map at one path only.

Main definitions:

- Definition {lit}`Node.Throughout`: what holds of the children of all nodes below a node.
- Definition {lit}`Trie.log?`: the log of a path.
- Definition {lit}`Trie.recordsAt`: the records of a path.

Main results:

- Theorem {lit}`Fanout.get?_insert`: a child that is put under a byte is found there,
  and every other child is found as before, across the upgrade as well.
- Theorem {lit}`Node.log?_plant`: planting a path adds empty logs along it and changes
  no other log.
- Theorem {lit}`Node.log?_update?`: a record changes the log of its path only.
- Theorems {lit}`Trie.log?_record` and {lit}`Trie.log?_recordAt?`: the same for a trie.
- Theorems {lit}`Trie.recordsAt_record` and {lit}`Trie.recordsAt_recordAt?`: the same for the
  records of a path.
-/

namespace PhraseLedger

namespace Fanout

variable {α : Type}

/-- Whether children are held as they should be: compact lists are equally long, short and name
no byte twice, and a direct table has a slot for every byte. -/
def Valid : Fanout α → Prop
  | .compact keys children =>
      keys.Nodup ∧ children.length = keys.length ∧ keys.length ≤ compactLimit
  | .direct slots => slots.size = directSize

theorem valid_empty : (empty : Fanout α).Valid := by
  simp [empty, Valid]

/-! ## Compact lists -/

theorem lookup_cons_eq (key byte : UInt8) (child : α) (rest : List (UInt8 × α)) :
    ((key, child) :: rest).lookup byte =
      if byte = key then some child else rest.lookup byte := by
  rw [List.lookup_cons]
  by_cases hbyte : byte = key
  · simp [hbyte]
  · rw [if_neg hbyte, beq_eq_false_iff_ne.mpr hbyte]

theorem map_fst_zip_children {keys : List UInt8} {children : List α}
    (hvalid : (compact keys children).Valid) : (keys.zip children).map Prod.fst = keys :=
  List.map_fst_zip (Nat.le_of_eq hvalid.2.1.symm)

/-- The child at the position of a key is the one that is paired with it. -/
theorem get?_compact (keys : List UInt8) (children : List α) (byte : UInt8) :
    (compact keys children).get? byte = (keys.zip children).lookup byte := by
  induction keys generalizing children with
  | nil => rfl
  | cons key keys ih =>
      cases children with
      | nil => simp [get?]
      | cons child children =>
          rw [List.zip_cons_cons, lookup_cons_eq, ← ih, get?, get?, List.idxOf?_cons]
          by_cases hkey : key = byte
          · simp [hkey]
          · rw [if_neg (fun h => hkey (eq_of_beq h)), if_neg (Ne.symm hkey), Option.bind_map]
            rfl

/-- A child that is put at the position of its key is found there, and every other child as
before. -/
theorem get?_set {keys : List UInt8} {children : List α}
    (hlength : children.length = keys.length) {byte : UInt8} {position : Nat}
    (hposition : keys.idxOf? byte = some position) (other : UInt8) (child : α) :
    (compact keys (children.set position child)).get? other =
      if other = byte then some child else (compact keys children).get? other := by
  rcases List.idxOf?_eq_some_iff.mp hposition with ⟨hbound, hkey, -⟩
  by_cases hother : other = byte
  · rw [if_pos hother, hother, get?, hposition, Option.bind_some,
      List.getElem?_set_self (hlength ▸ hbound)]
  · rw [if_neg hother, get?, get?]
    cases hfound : keys.idxOf? other with
    | none => rfl
    | some i =>
        rcases List.idxOf?_eq_some_iff.mp hfound with ⟨hi, hkeyi, -⟩
        have hne : position ≠ i := by
          rintro rfl
          exact hother (hkeyi.symm.trans hkey)
        rw [Option.bind_some, Option.bind_some, List.getElem?_set_ne hne]

/-- A child that is put behind the others is found under its byte, and every other child as
before. -/
theorem get?_push {keys : List UInt8} {children : List α}
    (hlength : children.length = keys.length) {byte : UInt8} (hfresh : byte ∉ keys)
    (other : UInt8) (child : α) :
    (compact (keys ++ [byte]) (children ++ [child])).get? other =
      if other = byte then some child else (compact keys children).get? other := by
  rw [get?_compact, List.zip_append hlength.symm, List.lookup_append, ← get?_compact,
    List.zip_cons_cons, lookup_cons_eq, List.zip_nil_left, List.lookup_nil]
  by_cases hother : other = byte
  · rw [if_pos hother, if_pos hother, hother, get?, List.idxOf?_eq_none_iff.mpr hfresh]
    rfl
  · rw [if_neg hother, if_neg hother, Option.or_none]

/-! ## Direct tables -/

theorem slot_set (slots : Array (Option α)) (hsize : slots.size = directSize)
    (byte other : UInt8) (child : α) :
    (slots.setIfInBounds byte.toNat (some child))[other.toNat]?.join =
      if other = byte then some child else slots[other.toNat]?.join := by
  have hbound : byte.toNat < slots.size := by
    rw [hsize]
    exact byte.toNat_lt
  by_cases hother : other = byte
  · rw [hother, Array.getElem?_setIfInBounds_self, if_pos hbound, if_pos rfl]
    rfl
  · have hne : byte.toNat ≠ other.toNat := by
      intro heq
      exact hother (UInt8.toNat_inj.mp heq.symm)
    rw [Array.getElem?_setIfInBounds_ne hne, if_neg hother]

theorem size_foldl_set (entries : List (UInt8 × α)) (slots : Array (Option α)) :
    (entries.foldl (fun slots entry => slots.setIfInBounds entry.1.toNat (some entry.2))
      slots).size = slots.size := by
  induction entries generalizing slots with
  | nil => rfl
  | cons entry rest ih =>
      rw [List.foldl_cons, ih, Array.size_setIfInBounds]

/-- Slots that are filled from a compact list hold its children, and the others hold
what they held before. -/
theorem slot_foldl_set (entries : List (UInt8 × α))
    (hnodup : (entries.map Prod.fst).Nodup) (slots : Array (Option α))
    (hsize : slots.size = directSize) (byte : UInt8) :
    (entries.foldl (fun slots entry => slots.setIfInBounds entry.1.toNat (some entry.2))
      slots)[byte.toNat]?.join = (entries.lookup byte).or slots[byte.toNat]?.join := by
  induction entries generalizing slots with
  | nil => simp
  | cons entry rest ih =>
      rcases entry with ⟨key, child⟩
      rcases List.nodup_cons.mp hnodup with ⟨hfresh, hrest⟩
      rw [List.foldl_cons, ih hrest _ (by rw [Array.size_setIfInBounds, hsize]),
        slot_set slots hsize, lookup_cons_eq]
      by_cases hbyte : byte = key
      · have hnone : rest.lookup byte = none := by
          rw [List.lookup_eq_none_iff]
          intro pair hpair
          rw [bne_iff_ne]
          intro heq
          exact hfresh (List.mem_map.mpr ⟨pair, hpair, by rw [← heq, hbyte]⟩)
        simp [hbyte ▸ hnone, hbyte]
      · simp [hbyte]

theorem size_table (keys : List UInt8) (children : List α) :
    (table keys children).size = directSize := by
  rw [table, size_foldl_set, Array.size_replicate]

/-- The direct table of compact lists holds the same children. -/
theorem slot_table {keys : List UInt8} {children : List α}
    (hvalid : (compact keys children).Valid) (byte : UInt8) :
    (table keys children)[byte.toNat]?.join = (compact keys children).get? byte := by
  have hfree : (Array.replicate directSize (none : Option α))[byte.toNat]?.join = none := by
    rw [Array.getElem?_replicate]
    split <;> rfl
  have hnodup : ((keys.zip children).map Prod.fst).Nodup := by
    rw [map_fst_zip_children hvalid]
    exact hvalid.1
  rw [table, slot_foldl_set _ hnodup _ Array.size_replicate, hfree, Option.or_none, get?_compact]

/-! ## Children by byte -/

theorem get?_direct (slots : Array (Option α)) (byte : UInt8) :
    (direct slots).get? byte = slots[byte.toNat]?.join := rfl

theorem insert_of_position {keys : List UInt8} {byte : UInt8} {position : Nat}
    (hposition : keys.idxOf? byte = some position) (children : List α) (child : α) :
    (compact keys children).insert byte child =
      .compact keys (children.set position child) := by
  simp only [insert, hposition]

theorem insert_of_fresh {keys : List UInt8} {byte : UInt8} (hfresh : byte ∉ keys)
    (children : List α) (child : α) :
    (compact keys children).insert byte child =
      if keys.length = compactLimit then
        .direct ((table keys children).setIfInBounds byte.toNat (some child))
      else .compact (keys ++ [byte]) (children ++ [child]) := by
  simp only [insert, List.idxOf?_eq_none_iff.mpr hfresh]

/-- A child that is put under a byte is found there, and every other child is found as
before. -/
theorem get?_insert {fanout : Fanout α} (hvalid : fanout.Valid) (byte other : UInt8)
    (child : α) :
    (fanout.insert byte child).get? other =
      if other = byte then some child else fanout.get? other := by
  cases fanout with
  | compact keys children =>
      cases hposition : keys.idxOf? byte with
      | some position =>
          rw [insert_of_position hposition]
          exact get?_set hvalid.2.1 hposition other child
      | none =>
          have hfresh := List.idxOf?_eq_none_iff.mp hposition
          rw [insert_of_fresh hfresh]
          by_cases hfull : keys.length = compactLimit
          · rw [if_pos hfull, get?_direct, slot_set _ (size_table keys children),
              slot_table hvalid]
          · rw [if_neg hfull]
            exact get?_push hvalid.2.1 hfresh other child
  | direct slots => exact slot_set slots hvalid byte other child

/-- Putting a child under a byte keeps children held as they should be. -/
theorem valid_insert {fanout : Fanout α} (hvalid : fanout.Valid) (byte : UInt8)
    (child : α) : (fanout.insert byte child).Valid := by
  cases fanout with
  | compact keys children =>
      rcases hvalid with ⟨hnodup, hlength, hlimit⟩
      cases hposition : keys.idxOf? byte with
      | some position =>
          rw [insert_of_position hposition, Valid, List.length_set]
          exact ⟨hnodup, hlength, hlimit⟩
      | none =>
          have hfresh := List.idxOf?_eq_none_iff.mp hposition
          rw [insert_of_fresh hfresh]
          by_cases hfull : keys.length = compactLimit
          · rw [if_pos hfull, Valid, Array.size_setIfInBounds, size_table]
          · rw [if_neg hfull, Valid, List.length_append, List.length_append,
              List.length_singleton, List.length_singleton]
            have hkeys : (keys ++ [byte]).Nodup :=
              (List.perm_append_singleton byte keys).nodup_iff.mpr
                (List.nodup_cons.mpr ⟨hfresh, hnodup⟩)
            exact ⟨hkeys, by omega, by omega⟩
  | direct slots =>
      rw [insert, Valid, Array.size_setIfInBounds]
      exact hvalid

/-- Whether something holds of no children and goes on to hold when a child is put under a byte,
and holds only of children that are held as they should be. -/
structure IsKept (holds : Fanout α → Prop) : Prop where
  valid : ∀ {fanout}, holds fanout → fanout.Valid
  empty : holds empty
  insert : ∀ {fanout} (byte : UInt8) (child : α), holds fanout → holds (fanout.insert byte child)

theorem isKept_valid : IsKept fun fanout : Fanout α => fanout.Valid :=
  ⟨id, valid_empty, fun byte child hvalid => valid_insert hvalid byte child⟩

end Fanout

/-! ## Nodes -/

namespace Node

/-- Whether the children of a node, and of all nodes below it, are held as they should
be. -/
inductive Valid : Node → Prop
  | intro {node : Node} (hfanout : node.fanout.Valid)
      (hchild : ∀ byte child, node.child? byte = some child → Valid child) : Valid node

theorem Valid.fanout {node : Node} (hvalid : node.Valid) : node.fanout.Valid := by
  cases hvalid with
  | intro hfanout hchild => exact hfanout

theorem Valid.child {node : Node} (hvalid : node.Valid) {byte : UInt8} {child : Node}
    (hfound : node.child? byte = some child) : child.Valid := by
  cases hvalid with
  | intro hfanout hchild => exact hchild byte child hfound

/-- The log at the end of a path, if the path has a node. -/
def log? (node : Node) (path : List UInt8) : Option Log :=
  (node.find? path).map Node.log

theorem find?_cons (node : Node) (byte : UInt8) (path : List UInt8) :
    node.find? (byte :: path) = (node.child? byte).bind (·.find? path) := by
  simp [find?, List.foldlM_cons, Option.bind_eq_bind]

theorem find?_append (node : Node) (front back : List UInt8) :
    node.find? (front ++ back) = (node.find? front).bind (·.find? back) := by
  simp [find?, List.foldlM_append, Option.bind_eq_bind]

@[simp] theorem log?_nil (node : Node) : node.log? [] = some node.log := rfl

theorem log?_cons (node : Node) (byte : UInt8) (path : List UInt8) :
    node.log? (byte :: path) = (node.child? byte).bind (·.log? path) := by
  rw [log?, find?_cons, Option.map_bind]
  rfl

@[simp] theorem child?_empty (byte : UInt8) : empty.child? byte = none := rfl

theorem log?_empty (path : List UInt8) :
    empty.log? path = if path = [] then some .empty else none := by
  cases path with
  | nil => rfl
  | cons byte path => simp [log?_cons]

theorem valid_empty : empty.Valid :=
  .intro Fanout.valid_empty (by simp)

/-- A node after a child was put under a byte. -/
theorem child?_insert {node : Node} (hvalid : node.Valid) (byte other : UInt8)
    (child : Node) :
    { node with fanout := node.fanout.insert byte child }.child? other =
      if other = byte then some child else node.child? other := by
  exact Fanout.get?_insert hvalid.fanout byte other child

/-! ## Nodes all through a trie -/

/-- Whether something holds of the children of a node and of those of all nodes below it. -/
inductive Throughout (holds : Fanout Node → Prop) : Node → Prop
  | intro {node : Node} (hfanout : holds node.fanout)
      (hchild : ∀ byte child, node.child? byte = some child → Throughout holds child) :
      Throughout holds node

theorem valid_iff_throughout (node : Node) : node.Valid ↔ node.Throughout Fanout.Valid := by
  constructor
  · intro hvalid
    induction hvalid with
    | intro hfanout hchild ih => exact .intro hfanout ih
  · intro hthroughout
    induction hthroughout with
    | intro hfanout hchild ih => exact .intro hfanout ih

namespace Throughout

variable {holds : Fanout Node → Prop} {node : Node}

theorem fanout (h : node.Throughout holds) : holds node.fanout := by
  cases h with
  | intro hfanout hchild => exact hfanout

theorem child (h : node.Throughout holds) {byte : UInt8} {next : Node}
    (hfound : node.child? byte = some next) : next.Throughout holds := by
  cases h with
  | intro hfanout hchild => exact hchild byte next hfound

/-- What holds throughout a node holds of the node at the end of any path. -/
theorem find? (h : node.Throughout holds) {path : List UInt8} {last : Node}
    (hfound : node.find? path = some last) : last.Throughout holds := by
  induction path generalizing node with
  | nil => exact Option.some.inj hfound ▸ h
  | cons byte path ih =>
      rw [find?_cons] at hfound
      rcases Option.bind_eq_some_iff.mp hfound with ⟨next, hnext, hlast⟩
      exact ih (h.child hnext) hlast

variable (hkept : Fanout.IsKept holds)
include hkept

theorem empty : Node.empty.Throughout holds :=
  .intro hkept.empty (by simp)

/-- Putting a child under a byte keeps what holds throughout. -/
theorem insert (h : node.Throughout holds) {next : Node} (hnext : next.Throughout holds)
    (byte : UInt8) : { node with fanout := node.fanout.insert byte next }.Throughout holds := by
  refine .intro (hkept.insert byte next h.fanout) ?_
  intro other found hfound
  have hget := Fanout.get?_insert (hkept.valid h.fanout) byte other next
  rw [child?, hget] at hfound
  split at hfound
  · exact Option.some.inj hfound ▸ hnext
  · exact h.child hfound

/-- What holds throughout a node holds throughout its child under a byte, or throughout a new node
in its place. -/
theorem child_getD (h : node.Throughout holds) (byte : UInt8) :
    ((node.child? byte).getD Node.empty).Throughout holds := by
  cases hfound : node.child? byte with
  | none => exact empty hkept
  | some child => exact h.child hfound

end Throughout

/-- The child under a byte, or a new node in its place, is held as it should be. -/
theorem valid_child_getD {node : Node} (hvalid : node.Valid) (byte : UInt8) :
    ((node.child? byte).getD empty).Valid := by
  rw [valid_iff_throughout] at hvalid ⊢
  exact hvalid.child_getD Fanout.isKept_valid byte

theorem plant_cons (byte : UInt8) (path : List UInt8) (node : Node) :
    (plant (byte :: path) node).1 =
      { node with fanout :=
          node.fanout.insert byte (plant path ((node.child? byte).getD empty)).1 } := rfl

/-- Planting a path keeps what holds throughout. -/
theorem Throughout.plant {holds : Fanout Node → Prop} (hkept : Fanout.IsKept holds) {node : Node}
    (h : node.Throughout holds) (path : List UInt8) : (plant path node).1.Throughout holds := by
  induction path generalizing node with
  | nil => exact h
  | cons byte path ih =>
      rw [plant_cons]
      exact h.insert hkept (ih (h.child_getD hkept byte)) byte

/-- Planting a path keeps a node held as it should be. -/
theorem valid_plant {node : Node} (hvalid : node.Valid) (path : List UInt8) :
    (plant path node).1.Valid := by
  rw [valid_iff_throughout] at hvalid ⊢
  exact hvalid.plant Fanout.isKept_valid path

/-- Planting a path adds empty logs along the path where there were none, and changes no
other log. -/
theorem log?_plant {node : Node} (hvalid : node.Valid) (path other : List UInt8) :
    (plant path node).1.log? other =
      if other <+: path then some ((node.log? other).getD .empty) else node.log? other := by
  induction path generalizing node other with
  | nil =>
      cases other with
      | nil => rfl
      | cons byte other => simp [plant]
  | cons byte path ih =>
      rw [plant_cons]
      cases other with
      | nil => simp
      | cons next other =>
          simp only [log?_cons, child?_insert hvalid, List.cons_prefix_cons]
          by_cases hnext : next = byte
          · rw [if_pos hnext, Option.bind_some, ih (valid_child_getD hvalid byte), hnext]
            cases hchild : node.child? byte with
            | none =>
                by_cases hshared : other <+: path
                · simp only [hshared, if_true, true_and, Option.getD_none, Option.bind_none,
                    log?_empty]
                  split <;> rfl
                · have hnonempty : other ≠ [] := by
                    rintro rfl
                    exact hshared List.nil_prefix
                  simp [hshared, log?_empty, hnonempty]
            | some child => simp
          · rw [if_neg hnext, if_neg (fun h => hnext h.1)]

/-- A record is refused exactly if its path has no node. -/
theorem update?_eq_none_iff (change : Node → Node) (path : List UInt8) (node : Node) :
    update? change path node = none ↔ node.log? path = none := by
  induction path generalizing node with
  | nil => simp [update?]
  | cons byte path ih =>
      rw [update?, log?_cons]
      cases hchild : node.child? byte with
      | none => simp
      | some child =>
          rw [Option.bind_some, ← ih child]
          cases hchanged : update? change path child <;> simp [hchanged]

/-- A record that is appended at the end of a path goes through the child under the
first byte of the path. -/
theorem update?_cons_eq_some {change : Node → Node} {byte : UInt8} {path : List UInt8}
    {node after : Node} (hupdate : update? change (byte :: path) node = some after) :
    ∃ child changed, node.child? byte = some child ∧
      update? change path child = some changed ∧
      after = { node with fanout := node.fanout.insert byte changed } := by
  rw [update?] at hupdate
  cases hchild : node.child? byte with
  | none => simp [hchild] at hupdate
  | some child =>
      cases hchanged : update? change path child with
      | none => simp [hchild, hchanged] at hupdate
      | some changed =>
          refine ⟨child, changed, rfl, hchanged, ?_⟩
          simpa [hchild, hchanged] using hupdate.symm

/-- Appending a record at the end of a path keeps what holds throughout. -/
theorem Throughout.update? {holds : Fanout Node → Prop} (hkept : Fanout.IsKept holds)
    {record : Record} {path : List UInt8} {node after : Node} (h : node.Throughout holds)
    (hupdate : update? (·.append record) path node = some after) : after.Throughout holds := by
  induction path generalizing node after with
  | nil =>
      rw [Node.update?, Option.some.injEq] at hupdate
      subst hupdate
      exact .intro h.fanout fun _ _ hfound => h.child hfound
  | cons byte path ih =>
      rcases update?_cons_eq_some hupdate with ⟨child, changed, hchild, hchanged, rfl⟩
      exact h.insert hkept (ih (h.child hchild) hchanged) byte

/-- Appending a record at the end of a path keeps a node held as it should be. -/
theorem valid_update? {record : Record} {path : List UInt8} {node after : Node}
    (hvalid : node.Valid) (hupdate : update? (·.append record) path node = some after) :
    after.Valid := by
  rw [valid_iff_throughout] at hvalid ⊢
  exact hvalid.update? Fanout.isKept_valid hupdate

/-- A record that is appended at the end of a path changes the log of that path only. -/
theorem log?_update? {record : Record} {path : List UInt8} {node after : Node}
    (hvalid : node.Valid) (hupdate : update? (·.append record) path node = some after)
    (other : List UInt8) :
    after.log? other =
      if other = path then (node.log? other).map (·.append record) else node.log? other := by
  induction path generalizing node after other with
  | nil =>
      rw [update?, Option.some.injEq] at hupdate
      subst hupdate
      cases other <;> rfl
  | cons byte path ih =>
      rcases update?_cons_eq_some hupdate with ⟨child, changed, hchild, hchanged, rfl⟩
      cases other with
      | nil => simp
      | cons next other =>
          simp only [log?_cons, child?_insert hvalid, List.cons.injEq]
          by_cases hnext : next = byte
          · rw [if_pos hnext, hnext, hchild, Option.bind_some, Option.bind_some,
              ih (hvalid.child hchild) hchanged]
            simp
          · rw [if_neg hnext, if_neg (fun h => hnext h.1)]

end Node

/-! ## Tries -/

namespace Trie

/-- Whether the children of all nodes are held as they should be. -/
def Valid (trie : Trie) : Prop :=
  trie.root.Valid

/-- The log of a path, if the path has a node. -/
def log? (trie : Trie) (path : List UInt8) : Option Log :=
  trie.root.log? path

theorem valid_empty : empty.Valid :=
  Node.valid_empty

/-- Planting a path keeps a trie held as it should be. -/
theorem valid_plant {trie : Trie} (hvalid : trie.Valid) (path : List UInt8) :
    (trie.plant path).Valid :=
  Node.valid_plant hvalid path

/-- Planting a path adds empty logs along it and changes no other log. -/
theorem log?_plant {trie : Trie} (hvalid : trie.Valid) (path other : List UInt8) :
    (trie.plant path).log? other =
      if other <+: path then some ((trie.log? other).getD .empty) else trie.log? other :=
  Node.log?_plant hvalid path other

/-- A record is refused exactly if its path has no node. -/
theorem recordAt?_eq_none_iff (trie : Trie) (path : List UInt8) (record : Record) :
    trie.recordAt? path record = none ↔ trie.log? path = none := by
  rw [recordAt?, Option.map_eq_none_iff, Node.update?_eq_none_iff]
  rfl

/-- A record is appended to a log that is there. -/
theorem exists_log?_of_recordAt? {trie after : Trie} {path : List UInt8} {record : Record}
    (hrecord : trie.recordAt? path record = some after) : ∃ log, trie.log? path = some log := by
  have hpresent : trie.log? path ≠ none := by
    rw [Ne, ← recordAt?_eq_none_iff trie path record, hrecord]
    simp
  exact Option.ne_none_iff_exists'.mp hpresent

/-- Appending a record keeps a trie held as it should be. -/
theorem valid_recordAt? {trie after : Trie} {path : List UInt8} {record : Record}
    (hvalid : trie.Valid) (hrecord : trie.recordAt? path record = some after) :
    after.Valid := by
  rcases Option.map_eq_some_iff.mp hrecord with ⟨root, hroot, rfl⟩
  exact Node.valid_update? hvalid hroot

/-- Appending a record changes the log of its path only. -/
theorem log?_recordAt? {trie after : Trie} {path : List UInt8} {record : Record}
    (hvalid : trie.Valid) (hrecord : trie.recordAt? path record = some after)
    (other : List UInt8) :
    after.log? other =
      if other = path then (trie.log? other).map (·.append record) else trie.log? other := by
  rcases Option.map_eq_some_iff.mp hrecord with ⟨root, hroot, rfl⟩
  exact Node.log?_update? hvalid hroot other

/-- A planted path takes the record that is appended to it. -/
theorem recordAt?_plant_eq_record {trie : Trie} (hvalid : trie.Valid)
    (path : List UInt8) (record : Record) :
    (trie.plant path).recordAt? path record = some (trie.record path record) := by
  have hplanted : (trie.plant path).recordAt? path record ≠ none := by
    rw [Ne, recordAt?_eq_none_iff, log?_plant hvalid, if_pos List.prefix_rfl]
    simp
  rcases Option.ne_none_iff_exists'.mp hplanted with ⟨after, hafter⟩
  rw [Trie.record, hafter, Option.getD_some]

/-- Planting a path and appending a record keeps a trie held as it should be. -/
theorem valid_record {trie : Trie} (hvalid : trie.Valid) (path : List UInt8)
    (record : Record) : (trie.record path record).Valid :=
  valid_recordAt? (valid_plant hvalid path) (recordAt?_plant_eq_record hvalid path record)

/-- Planting a path and appending a record gives the path its old log with the record,
or a new log, and changes no other log but for new empty ones along the path. -/
theorem log?_record {trie : Trie} (hvalid : trie.Valid) (path : List UInt8)
    (record : Record) (other : List UInt8) :
    (trie.record path record).log? other =
      if other = path then some (((trie.log? path).getD .empty).append record)
      else if other <+: path then some ((trie.log? other).getD .empty)
      else trie.log? other := by
  rw [log?_recordAt? (valid_plant hvalid path)
    (recordAt?_plant_eq_record hvalid path record), log?_plant hvalid]
  by_cases hother : other = path
  · simp [hother]
  · rw [if_neg hother, if_neg hother]

/-! ## Records by path -/

/-- The records of a path, the oldest one first; a path without a node has none. -/
def recordsAt (trie : Trie) (path : List UInt8) : List Record :=
  ((trie.log? path).getD .empty).toList

@[simp] theorem recordsAt_empty (path : List UInt8) : empty.recordsAt path = [] := by
  rw [recordsAt, log?, empty, Node.log?_empty]
  split <;> rfl

/-- Planting a path gives no path a record. -/
theorem recordsAt_plant {trie : Trie} (hvalid : trie.Valid) (path other : List UInt8) :
    (trie.plant path).recordsAt other = trie.recordsAt other := by
  rw [recordsAt, log?_plant hvalid]
  split <;> rfl

/-- A record on a planted path is the last one of this path, and no other path has a new
one. -/
theorem recordsAt_record {trie : Trie} (hvalid : trie.Valid) (path : List UInt8)
    (record : Record) (other : List UInt8) :
    (trie.record path record).recordsAt other =
      if other = path then trie.recordsAt path ++ [record] else trie.recordsAt other := by
  rw [recordsAt, log?_record hvalid]
  by_cases hother : other = path
  · simp [hother, recordsAt]
  · rw [if_neg hother, if_neg hother]
    split <;> rfl

/-- A record on a path that has a node is the last one of this path, and no other path has a
new one. -/
theorem recordsAt_recordAt? {trie after : Trie} {path : List UInt8} {record : Record}
    (hvalid : trie.Valid) (hrecord : trie.recordAt? path record = some after)
    (other : List UInt8) :
    after.recordsAt other =
      if other = path then trie.recordsAt path ++ [record] else trie.recordsAt other := by
  rcases exists_log?_of_recordAt? hrecord with ⟨log, hlog⟩
  rw [recordsAt, log?_recordAt? hvalid hrecord]
  by_cases hother : other = path
  · simp [hother, hlog, recordsAt]
  · rw [if_neg hother, if_neg hother, recordsAt]

end Trie

end PhraseLedger
