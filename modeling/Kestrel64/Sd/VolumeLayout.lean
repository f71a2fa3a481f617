import Kestrel64.Sd.Volume

/-! # SD Card: The Layout of the Volume

    Where `buildVirtual` puts the nodes of a host directory.

    * `scan` numbers the entries as they come, and a directory in front of what
      is in it; `Listing.nodes` says the same without a state (`scan_eq`).
    * The clusters are given out without gaps (`layoutFrom_eq`), as long as the
      numbers do not wrap.
    * Every write of a directory is inside of its bytes (`fillFrom_eq`).
-/

namespace Sd

/-! ## Section 1: The nodes of a listing -/

namespace Listing

/-- How many nodes there are in a listing. -/
def size : Listing → Nat
  | .nil => 0
  | .file _ size _ rest => if TooLarge size then rest.size else 1 + rest.size
  | .dir _ sub rest => 1 + (sub.size + rest.size)

/-- The children, if numbers from `k` on are free. -/
def kids (k : Nat) : Listing → List Nat
  | .nil => []
  | .file _ size _ rest => if TooLarge size then rest.kids k else k :: rest.kids (k + 1)
  | .dir _ sub rest => k :: rest.kids (k + 1 + sub.size)

/-- The nodes from `k` on, for a listing of directory `idx`. -/
def nodes (idx k : Nat) : Listing → List Node
  | .nil => []
  | .file name size host rest =>
    if TooLarge size then rest.nodes idx k
    else { name := name.bytes, size, host, parent := some idx } :: rest.nodes idx (k + 1)
  | .dir name sub rest =>
    { name := name.bytes, dir := true, parent := some idx, kids := sub.kids (k + 1) } ::
      (sub.nodes k (k + 1) ++ rest.nodes idx (k + 1 + sub.size))

theorem length_nodes (l : Listing) (idx k : Nat) : (l.nodes idx k).length = l.size := by
  induction l generalizing idx k with
  | nil => rfl
  | file name size host rest ih =>
    rw [nodes, Listing.size]
    split
    · exact ih idx k
    · rw [List.length_cons, ih, Nat.add_comm]
  | dir name sub rest ihsub ihrest =>
    rw [nodes, Listing.size, List.length_cons, List.length_append, ihsub, ihrest, Nat.add_comm]

end Listing

def addKids (nodes : List Node) (idx : Nat) (ks : List Nat) : List Node :=
  nodes.modify idx fun n => { n with kids := n.kids ++ ks }

theorem length_addKids (nodes : List Node) (idx : Nat) (ks : List Nat) :
    (addKids nodes idx ks).length = nodes.length := List.length_modify ..

theorem addKids_nil (nodes : List Node) (idx : Nat) : addKids nodes idx [] = nodes := by
  have hid : (fun n : Node => { n with kids := n.kids ++ [] }) = id := by
    funext n
    simp
  rw [addKids, hid, List.modify_id]

theorem addKids_addKids (nodes : List Node) (idx : Nat) (ks ks' : List Nat) :
    addKids (addKids nodes idx ks) idx ks' = addKids nodes idx (ks ++ ks') := by
  rw [addKids, addKids, List.modify_modify_eq, addKids]
  congr 1
  funext n
  simp

theorem addKids_append {as : List Node} {idx : Nat} (h : idx < as.length) (bs : List Node)
    (ks : List Nat) : addKids (as ++ bs) idx ks = addKids as idx ks ++ bs := by
  induction as generalizing idx with
  | nil => exact absurd h (Nat.not_lt_zero _)
  | cons a as ih =>
    rcases idx with _ | idx
    · rfl
    · have hrest := ih (Nat.lt_of_succ_lt_succ h)
      unfold addKids at hrest ⊢
      rw [List.cons_append, List.modify_succ_cons, hrest]
      rfl

theorem addKids_last (as : List Node) (n : Node) (ks : List Nat) :
    addKids (as ++ [n]) as.length ks = as ++ [{ n with kids := n.kids ++ ks }] := by
  induction as with
  | nil => rfl
  | cons a as ih =>
    unfold addKids at ih ⊢
    rw [List.cons_append, List.length_cons, List.modify_succ_cons, ih]
    rfl

theorem scan_eq (l : Listing) {nodes : List Node} {idx : Nat} (h : idx < nodes.length) :
    scan nodes idx l = addKids nodes idx (l.kids nodes.length) ++ l.nodes idx nodes.length := by
  induction l generalizing nodes idx with
  | nil => rw [scan, Listing.kids, Listing.nodes, addKids_nil, List.append_nil]
  | file name size host rest ih =>
    rw [scan, Listing.kids, Listing.nodes]
    by_cases hlarge : TooLarge size
    · rw [if_pos hlarge, if_pos hlarge, if_pos hlarge]
      exact ih h
    · rw [if_neg hlarge, if_neg hlarge, if_neg hlarge]
      show scan (addKids (nodes ++ [_]) idx [nodes.length]) idx rest = _
      rw [addKids_append h, ih (by rw [List.length_append, length_addKids]; omega),
        List.length_append, length_addKids, List.length_singleton,
        addKids_append (by rw [length_addKids]; exact h), addKids_addKids, List.append_assoc]
      rfl
  | dir name sub rest ihsub ihrest =>
    rw [scan, Listing.kids, Listing.nodes]
    show scan (scan (addKids (nodes ++ [_]) idx [nodes.length]) nodes.length sub) idx rest = _
    have hlen := length_addKids nodes idx [nodes.length]
    -- the directory is the last node when its own entries are read
    rw [addKids_append h, ihsub (by rw [List.length_append, hlen]; simp), List.length_append, hlen,
      List.length_singleton]
    have hlast := addKids_last (addKids nodes idx [nodes.length])
      { name := name.bytes, dir := true, parent := some idx } (sub.kids (nodes.length + 1))
    rw [hlen, List.nil_append] at hlast
    rw [hlast, ihrest (by simp only [List.length_append, hlen]; omega)]
    simp only [List.length_append, hlen, List.length_singleton, Listing.length_nodes]
    rw [List.append_assoc, addKids_append (by rw [hlen]; exact h), addKids_addKids, List.append_assoc,
      List.append_assoc]
    rfl

/-! ## Section 2: Where a listing is -/

/-- The nodes `ms` are those from `k` on. -/
def At (all : List Node) (k : Nat) (ms : List Node) : Prop :=
  ∃ pre post, all = pre ++ ms ++ post ∧ pre.length = k

theorem At.head {all ms : List Node} {k : Nat} {m : Node} (h : At all k (m :: ms)) :
    all[k]? = some m := by
  obtain ⟨pre, post, rfl, rfl⟩ := h
  simp

theorem At.left {all as bs : List Node} {k : Nat} (h : At all k (as ++ bs)) : At all k as := by
  obtain ⟨pre, post, rfl, rfl⟩ := h
  exact ⟨pre, bs ++ post, by simp, rfl⟩

theorem At.right {all as bs : List Node} {k n : Nat} (h : At all k (as ++ bs)) (hn : as.length = n) :
    At all (k + n) bs := by
  obtain ⟨pre, post, rfl, rfl⟩ := h
  exact ⟨pre ++ as, post, by simp, by rw [List.length_append, hn]⟩

theorem At.tail {all ms : List Node} {k : Nat} {m : Node} (h : At all k (m :: ms)) :
    At all (k + 1) ms := by
  obtain ⟨pre, post, rfl, rfl⟩ := h
  exact ⟨pre ++ [m], post, by simp, by simp⟩

/-- What is known of a node before it gets its clusters. -/
structure Fresh (all : List Node) (i : Nat) (n : Node) : Prop where
  first : n.first = 0
  kids : n.dir = true → ∃ sub : Listing, n.kids = sub.kids (i + 1) ∧
    At all (i + 1) (sub.nodes i (i + 1))

theorem fresh_nodes (l : Listing) {all : List Node} {idx k : Nat} (h : At all k (l.nodes idx k)) :
    ∀ i n, k ≤ i → i < k + l.size → all[i]? = some n → Fresh all i n := by
  induction l generalizing idx k with
  | nil =>
    intro i n hlo hhi
    exact absurd hhi (Nat.not_lt.mpr hlo)
  | file name size host rest ih =>
    intro i n hlo hhi hi
    rw [Listing.nodes] at h
    rw [Listing.size] at hhi
    by_cases hlarge : TooLarge size
    · rw [if_pos hlarge] at h hhi
      exact ih h i n hlo hhi hi
    · rw [if_neg hlarge] at h hhi
      rcases Nat.eq_or_lt_of_le hlo with rfl | hlt
      · obtain rfl := Option.some.inj (h.head.symm.trans hi)
        exact ⟨rfl, fun hdir => nomatch hdir⟩
      · exact ih h.tail i n hlt (by omega) hi
  | dir name sub rest ihsub ihrest =>
    intro i n hlo hhi hi
    rw [Listing.nodes] at h
    rw [Listing.size] at hhi
    have hrest := h.tail.right (sub.length_nodes k (k + 1))
    rcases Nat.eq_or_lt_of_le hlo with rfl | hlt
    · obtain rfl := Option.some.inj (h.head.symm.trans hi)
      exact ⟨rfl, fun _ => ⟨sub, rfl, h.tail.left⟩⟩
    · by_cases hsub : i < k + 1 + sub.size
      · exact ihsub h.tail.left i n hlt hsub hi
      · exact ihrest hrest i n (by omega) (by omega) hi

/-- All nodes of a volume. -/
def allNodes (tree : Listing) : List Node := scan [{ dir := true }] 0 tree

theorem allNodes_eq (tree : Listing) :
    allNodes tree = { dir := true, kids := tree.kids 1 } :: tree.nodes 0 1 :=
  scan_eq tree (Nat.one_pos)

theorem at_tree (tree : Listing) : At (allNodes tree) 1 (tree.nodes 0 1) :=
  ⟨[_], [], by rw [allNodes_eq, List.append_nil]; rfl, rfl⟩

theorem fresh_allNodes (tree : Listing) {i : Nat} {n : Node} (h : (allNodes tree)[i]? = some n) :
    Fresh (allNodes tree) i n := by
  rcases Nat.eq_zero_or_pos i with rfl | hpos
  · rw [allNodes_eq] at h
    obtain rfl := Option.some.inj h
    exact ⟨rfl, fun _ => ⟨tree, rfl, at_tree tree⟩⟩
  · obtain ⟨hlt, -⟩ := List.getElem?_eq_some_iff.mp h
    rw [allNodes_eq, List.length_cons, Listing.length_nodes] at hlt
    exact fresh_nodes tree (at_tree tree) i n hpos (by omega) h

/-! ## Section 3: Clusters -/

/-- Every directory can name its children. -/
def AliasesFit (all : List Node) : Prop :=
  ∀ n ∈ all, n.dir = true → entriesOf (n.kids.map fun k => (node all k).name) ≠ none

namespace Listing

/-- The entries of a directory. -/
def entries : Listing → Nat
  | .nil => 0
  | .file _ _ _ rest => 1 + rest.entries
  | .dir _ _ rest => 1 + rest.entries

/-- The directories below have fewer than 10^7 entries. -/
def Narrow : Listing → Prop
  | .nil => True
  | .file _ _ _ rest => rest.Narrow
  | .dir _ sub rest => sub.entries < 10 ^ 7 ∧ sub.Narrow ∧ rest.Narrow

theorem length_kids (l : Listing) (k : Nat) : (l.kids k).length ≤ l.entries := by
  induction l generalizing k with
  | nil => exact Nat.le_refl 0
  | file name size host rest ih =>
    rw [kids, entries]
    split
    · exact Nat.le_trans (ih k) (Nat.le_add_left ..)
    · rw [List.length_cons, Nat.add_comm]
      exact Nat.add_le_add_left (ih (k + 1)) 1
  | dir name sub rest _ ih =>
    rw [kids, entries, List.length_cons, Nat.add_comm]
    exact Nat.add_le_add_left (ih _) 1

theorem kids_nodes (l : Listing) (h : l.Narrow) (idx k : Nat) :
    ∀ n ∈ l.nodes idx k, n.kids.length < 10 ^ 7 := by
  induction l generalizing idx k with
  | nil =>
    intro n hn
    cases hn
  | file name size host rest ih =>
    rw [Listing.nodes]
    split
    · exact ih h idx k
    · intro n hn
      rcases List.mem_cons.mp hn with rfl | hn
      · exact Nat.pow_pos (by decide)
      · exact ih h idx (k + 1) n hn
  | dir name sub rest ihsub ihrest =>
    obtain ⟨hsub, hbelow, hrest⟩ := h
    intro n hn
    rw [Listing.nodes] at hn
    rcases List.mem_cons.mp hn with rfl | hn
    · exact Nat.lt_of_le_of_lt (sub.length_kids _) hsub
    · rcases List.mem_append.mp hn with hn | hn
      · exact ihsub hbelow k (k + 1) n hn
      · exact ihrest hrest idx _ n hn

end Listing

/-- Below 10^7 entries all aliases fit. -/
theorem aliasesFit_of_narrow {tree : Listing} (hroot : tree.entries < 10 ^ 7) (h : tree.Narrow) :
    AliasesFit (allNodes tree) := by
  intro n hn _
  have hkids : n.kids.length < 10 ^ 7 := by
    rw [allNodes_eq] at hn
    rcases List.mem_cons.mp hn with rfl | hn
    · exact Nat.lt_of_le_of_lt (tree.length_kids 1) hroot
    · exact tree.kids_nodes h 0 1 n hn
  apply entriesOf_ne_none
  rwa [List.length_map]

/-- The clusters node `i` needs. -/
def need (all : List Node) (i : Nat) (n : Node) : Nat :=
  match sized all i n with
  | none => 0
  | some (size, _) => (size + (kClus - 1)) / kClus

/-- The clusters the nodes from `i` on need. -/
def needFrom (all : List Node) : Nat → List Node → Nat
  | _, [] => 0
  | i, n :: ns => need all i n + needFrom all (i + 1) ns

/-- A node with its clusters and entries. -/
structure Placed (all : List Node) (xs : List Extent) (i : Nat) (n : Node)
    (p : Node × List Entry) : Prop where
  sized : sized all i n = some (p.1.size, p.2)
  same : p.1 = { n with size := p.1.size, count := p.1.count, first := p.1.first }
  count : p.1.count = (p.1.size + (kClus - 1)) / kClus
  extent : p.1.count ≠ 0 → { first := p.1.first, count := p.1.count, node := i } ∈ xs ∧
    p.1.first + p.1.count < 2 ^ 32
  first : p.1.count = 0 → p.1.first = n.first

theorem Placed.mono {all : List Node} {xs ys : List Extent} {i : Nat} {n : Node}
    {p : Node × List Entry} (h : Placed all xs i n p) (hsub : ∀ x ∈ xs, x ∈ ys) :
    Placed all ys i n p :=
  { h with extent := fun hcount => ⟨hsub _ (h.extent hcount).1, (h.extent hcount).2⟩ }

theorem sized_of_fit {all : List Node} (hfit : AliasesFit all) {n : Node} (hn : n ∈ all) (i : Nat) :
    ∃ size es, sized all i n = some (size, es) ∧ (n.dir = true → 0 < size) := by
  unfold sized
  cases hdir : n.dir with
  | false => exact ⟨n.size, [], rfl, fun h => nomatch h⟩
  | true =>
    obtain ⟨es, hes⟩ := Option.ne_none_iff_exists'.mp (hfit n hn hdir)
    rw [if_pos rfl, hes]
    exact ⟨_, es, rfl, fun _ => by omega⟩

/-- A directory has a cluster, and the number of clusters does not wrap. -/
theorem clusterCount_eq {dir : Bool} {size : Nat} (hdir : dir = true → 0 < size)
    (hlt : (size + (kClus - 1)) / kClus < 2 ^ 32) :
    clusterCount dir size = (size + (kClus - 1)) / kClus := by
  have hk : kClus = 4096 := rfl
  have hsub : size + kClus - 1 = size + (kClus - 1) := by
    rw [hk]
    omega
  unfold clusterCount
  rw [hsub, Nat.mod_eq_of_lt hlt]
  dsimp only
  rw [if_neg]
  rintro ⟨htrue, hzero⟩
  have hpos := hdir htrue
  rw [hk] at hzero
  omega

/-- The clusters are given out without gaps. -/
theorem layoutFrom_eq {all : List Node} (hfit : AliasesFit all) (ns : List Node)
    (hns : ∀ n ∈ ns, n ∈ all) {i next : Nat} (hnext : next + needFrom all i ns < 2 ^ 32) :
    ∃ l, layoutFrom all i next ns = some l ∧ l.next = next + needFrom all i ns ∧
      Extents.Packed Extent.first Extent.stop next l.extents l.next ∧
      l.nodes.length = ns.length ∧
      ∀ j n, ns[j]? = some n → ∃ p, l.nodes[j]? = some p ∧ Placed all l.extents (i + j) n p := by
  induction ns generalizing i next with
  | nil =>
    refine ⟨_, rfl, rfl, rfl, rfl, ?_⟩
    intro j n hj
    simp at hj
  | cons n ns ih =>
    rw [List.forall_mem_cons] at hns
    obtain ⟨size, es, hsized, hpos⟩ := sized_of_fit hfit hns.1 i
    have hneed : need all i n = (size + (kClus - 1)) / kClus := by
      rw [need, hsized]
    rw [needFrom] at hnext ⊢
    have hcount := clusterCount_eq hpos (by omega)
    rw [← hneed] at hcount
    rw [layoutFrom, hsized]
    simp only [Option.bind_eq_bind, Option.bind_some, hcount]
    by_cases hzero : need all i n = 0
    · rw [hzero, Nat.zero_add] at hnext ⊢
      obtain ⟨l, hl, hend, hpacked, hlen, hplaced⟩ := ih hns.2 hnext
      rw [if_neg (not_not.mpr rfl), hl]
      refine ⟨_, rfl, hend, hpacked, congrArg Nat.succ hlen, ?_⟩
      intro j m hj
      rcases j with _ | j
      · obtain rfl := Option.some.inj hj
        refine ⟨_, rfl, hsized, rfl, ?_, fun h => absurd rfl h, fun _ => rfl⟩
        rw [← hneed, hzero]
      · obtain ⟨p, hp, hat⟩ := hplaced j m hj
        rw [Nat.add_right_comm] at hat
        exact ⟨p, hp, hat⟩
    · have hlt : next + need all i n < 2 ^ 32 := by omega
      rw [← Nat.add_assoc] at hnext
      obtain ⟨l, hl, hend, hpacked, hlen, hplaced⟩ := ih hns.2 hnext
      rw [if_pos hzero, Nat.mod_eq_of_lt hlt, hl]
      have hstop : Extent.stop ⟨next, need all i n, i⟩ = next + need all i n := Nat.mod_eq_of_lt hlt
      refine ⟨_, rfl, by rw [hend]; omega, ⟨rfl, by rw [hstop]; omega, ?_⟩, congrArg Nat.succ hlen, ?_⟩
      · rw [hstop]
        exact hpacked
      · intro j m hj
        rcases j with _ | j
        · obtain rfl := Option.some.inj hj
          exact ⟨_, rfl, hsized, rfl, hneed, fun _ => ⟨List.mem_cons_self .., hlt⟩,
            fun h => absurd h hzero⟩
        · obtain ⟨p, hp, hat⟩ := hplaced j m hj
          rw [Nat.add_right_comm] at hat
          exact ⟨p, hp, hat.mono fun x hx => List.mem_cons_of_mem _ hx⟩

/-- The first node gets the first clusters. -/
theorem first_layoutFrom {all ns : List Node} {i next : Nat} {l : Layout}
    (h : layoutFrom all i next ns = some l) {p : Node × List Entry} (hp : l.nodes[0]? = some p)
    (hcount : p.1.count ≠ 0) : p.1.first = next := by
  rcases ns with _ | ⟨n, ns⟩
  · obtain rfl := Option.some.inj h
    cases hp
  · rw [layoutFrom] at h
    obtain ⟨⟨size, es⟩, -, hnext⟩ := Option.bind_eq_some_iff.mp h
    dsimp only at hnext
    split at hnext
    · obtain ⟨l', -, hsome⟩ := Option.bind_eq_some_iff.mp hnext
      obtain rfl := Option.some.inj hsome
      obtain rfl := Option.some.inj hp
      rfl
    · next hzero =>
      obtain ⟨l', -, hsome⟩ := Option.bind_eq_some_iff.mp hnext
      obtain rfl := Option.some.inj hsome
      obtain rfl := Option.some.inj hp
      exact absurd (not_not.mp hzero) hcount

/-- Every extent is that of a node. -/
theorem extents_layoutFrom {all ns : List Node} {i next : Nat} {l : Layout}
    (h : layoutFrom all i next ns = some l) : ∀ x ∈ l.extents, ∃ j p, l.nodes[j]? = some p ∧
      p.1.count ≠ 0 ∧ x = { first := p.1.first, count := p.1.count, node := i + j } := by
  induction ns generalizing i next l with
  | nil =>
    obtain rfl := Option.some.inj h
    intro x hx
    cases hx
  | cons n ns ih =>
    rw [layoutFrom] at h
    obtain ⟨⟨size, es⟩, -, hnext⟩ := Option.bind_eq_some_iff.mp h
    dsimp only at hnext
    split at hnext
    · next hcount =>
      obtain ⟨l', hl', hsome⟩ := Option.bind_eq_some_iff.mp hnext
      obtain rfl := Option.some.inj hsome
      intro x hx
      rcases List.mem_cons.mp hx with rfl | hx
      · exact ⟨0, _, rfl, hcount, rfl⟩
      · obtain ⟨j, p, hp, hpos, rfl⟩ := ih hl' x hx
        exact ⟨j + 1, p, hp, hpos, by rw [Nat.add_right_comm, Nat.add_assoc]⟩
    · obtain ⟨l', hl', hsome⟩ := Option.bind_eq_some_iff.mp hnext
      obtain rfl := Option.some.inj hsome
      intro x hx
      obtain ⟨j, p, hp, hpos, rfl⟩ := ih hl' x hx
      exact ⟨j + 1, p, hp, hpos, by rw [Nat.add_right_comm, Nat.add_assoc]⟩

/-! ## Section 4: Directories -/

/-- The children in a listing, with what the nodes from `k` on say of them. -/
def Listing.children (nodes : List Node) (k : Nat) : Listing → List Kid
  | .nil => []
  | .file name size _ rest =>
    if TooLarge size then rest.children nodes k
    else
      { name, dir := false, first := (node nodes k).first, size := (node nodes k).size } ::
        rest.children nodes (k + 1)
  | .dir name sub rest =>
    { name, dir := true, first := (node nodes k).first, size := (node nodes k).size } ::
      rest.children nodes (k + 1 + sub.size)

theorem children_congr (l : Listing) {as bs : List Node} (k : Nat)
    (h : ∀ k, (node as k).first = (node bs k).first ∧ (node as k).size = (node bs k).size) :
    l.children as k = l.children bs k := by
  induction l generalizing k with
  | nil => rfl
  | file name size host rest ih =>
    rw [Listing.children, Listing.children, (h k).1, (h k).2, ih k, ih (k + 1)]
  | dir name sub rest _ ih =>
    rw [Listing.children, Listing.children, (h k).1, (h k).2, ih]

theorem node_eq {nodes : List Node} {k : Nat} {n : Node} (h : nodes[k]? = some n) :
    node nodes k = n := by
  rw [node, List.getD_eq_getElem?_getD, h]
  rfl

/-- The names `entriesOf` gets are those of the listing. -/
theorem names_children (l : Listing) {all : List Node} {idx k : Nat} (h : At all k (l.nodes idx k))
    (nodes : List Node) : (l.kids k).map (fun k => (node all k).name) =
      (l.children nodes k).map fun c => c.name.bytes := by
  induction l generalizing idx k with
  | nil => rfl
  | file name size host rest ih =>
    rw [Listing.nodes] at h
    rw [Listing.kids, Listing.children]
    by_cases hlarge : TooLarge size
    · rw [if_pos hlarge] at h
      rw [if_pos hlarge, if_pos hlarge, ih h]
    · rw [if_neg hlarge] at h
      rw [if_neg hlarge, if_neg hlarge, List.map_cons, List.map_cons, ih h.tail, node_eq h.head]
  | dir name sub rest _ ih =>
    rw [Listing.nodes] at h
    have hrest := h.tail.right (sub.length_nodes k (k + 1))
    rw [Listing.kids, Listing.children, List.map_cons, List.map_cons, ih hrest, node_eq h.head]

/-- What is written of the children is what the listing says. -/
theorem childOf_children (l : Listing) {all nodes : List Node} {idx k : Nat}
    (h : At all k (l.nodes idx k)) (hdir : ∀ j n, all[j]? = some n → (node nodes j).dir = n.dir)
    (es : List Entry) : List.zipWith (childOf nodes) (l.kids k) es =
      List.zipWith Kid.child (l.children nodes k) es := by
  induction l generalizing idx k es with
  | nil => rfl
  | file name size host rest ih =>
    rw [Listing.nodes] at h
    rw [Listing.kids, Listing.children]
    by_cases hlarge : TooLarge size
    · rw [if_pos hlarge] at h
      rw [if_pos hlarge, if_pos hlarge, ih h]
    · rw [if_neg hlarge] at h
      rw [if_neg hlarge, if_neg hlarge]
      rcases es with _ | ⟨e, es⟩
      · rfl
      · rw [List.zipWith_cons_cons, List.zipWith_cons_cons, ih h.tail, childOf, hdir k _ h.head]
        rfl
  | dir name sub rest _ ih =>
    rw [Listing.nodes] at h
    have hrest := h.tail.right (sub.length_nodes k (k + 1))
    rw [Listing.kids, Listing.children]
    rcases es with _ | ⟨e, es⟩
    · rfl
    · rw [List.zipWith_cons_cons, List.zipWith_cons_cons, ih hrest, childOf, hdir k _ h.head]
      rfl

theorem isNone_upOf (nodes : List Node) (i : Nat) (n : Node) :
    (upOf nodes i n).isNone = decide (i = 0) := by
  unfold upOf
  split
  · next h => simp [h]
  · next h => simp [h]

/-- The bytes of a directory hold what is written into them, and are read back. -/
theorem dirBytes_placed {all nodes : List Node} {xs : List Extent} {i : Nat} {n : Node}
    {p : Node × List Entry} (hp : Placed all xs i n p) (hdir : n.dir = true) {sub : Listing}
    (hkids : n.kids = sub.kids (i + 1)) (hat : At all (i + 1) (sub.nodes i (i + 1)))
    (hsame : ∀ j n, all[j]? = some n → (node nodes j).dir = n.dir) :
    ∃ bytes, dirBytes p.1.count (upOf nodes i p.1) (List.zipWith (childOf nodes) p.1.kids p.2) =
        some bytes ∧ bytes.length = p.1.count * kClus ∧
      Fat.readDir bytes = some (dotRecs (upOf nodes i p.1) ++
        List.zipWith Kid.record (sub.children nodes (i + 1)) p.2) := by
  have hsized := hp.sized
  rw [sized, if_pos hdir, hkids, names_children sub hat nodes] at hsized
  obtain ⟨es, hes, hsome⟩ := Option.bind_eq_some_iff.mp hsized
  obtain ⟨hsize, rfl⟩ := Prod.mk.inj (Option.some.inj hsome)
  obtain ⟨hread, hrec, hentry⟩ := children_of_names (names_entriesOf hes)
  have hpkids : p.1.kids = sub.kids (i + 1) := by
    rw [hp.same]
    exact hkids
  have hslots := length_dirSlots (upOf nodes i p.1)
    (List.zipWith Kid.child (sub.children nodes (i + 1)) p.2)
  rw [hentry, isNone_upOf] at hslots
  have hroom : ((dirSlots (upOf nodes i p.1)
      (List.zipWith Kid.child (sub.children nodes (i + 1)) p.2)).length + 1) * 32 ≤
      p.1.count * kClus := by
    have hk : kClus = 4096 := rfl
    rw [hslots, hsize, hp.count, hk]
    omega
  obtain ⟨bytes, hbytes, hlen, -, hdirs⟩ := dirBytes_read (upOf nodes i p.1) hread hroom
  rw [hrec] at hdirs
  rw [hpkids, childOf_children sub hat hsame]
  exact ⟨bytes, hbytes, hlen, hdirs⟩

/-- The bytes node `i` has as a directory. -/
def Writes (nodes : List Node) (i : Nat) (p : Node × List Entry) (bytes : Bytes) : Prop :=
  p.1.dir = true →
    dirBytes p.1.count (upOf nodes i p.1) (List.zipWith (childOf nodes) p.1.kids p.2) = some bytes

/-- If every directory can be written, all are. -/
theorem fillFrom_eq {nodes : List Node} (ps : List (Node × List Entry)) {i : Nat}
    (h : ∀ j p, ps[j]? = some p → ∃ bytes, Writes nodes (i + j) p bytes) :
    ∃ ms, fillFrom nodes i ps = some ms ∧ ms.length = ps.length ∧
      ∀ j p, ps[j]? = some p →
        ∃ bytes, ms[j]? = some { p.1 with bytes } ∧ Writes nodes (i + j) p bytes := by
  induction ps generalizing i with
  | nil =>
    refine ⟨[], rfl, rfl, ?_⟩
    intro j p hj
    simp at hj
  | cons p ps ih =>
    have hrest : ∀ j q, ps[j]? = some q → ∃ bytes, Writes nodes (i + 1 + j) q bytes := by
      intro j q hj
      rw [Nat.add_right_comm]
      exact h (j + 1) q hj
    obtain ⟨ms, hms, hlen, hfill⟩ := ih hrest
    have htail : ∀ j q, ps[j]? = some q →
        ∃ bytes, ms[j]? = some { q.1 with bytes } ∧ Writes nodes (i + (j + 1)) q bytes := by
      intro j q hj
      obtain ⟨bytes, hat, hbytes⟩ := hfill j q hj
      rw [Nat.add_right_comm] at hbytes
      exact ⟨bytes, hat, hbytes⟩
    obtain ⟨n, es⟩ := p
    obtain ⟨bytes, hbytes⟩ := h 0 (n, es) rfl
    rw [fillFrom]
    cases hdir : n.dir with
    | false =>
      refine ⟨n :: ms, by rw [hms]; rfl, congrArg Nat.succ hlen, ?_⟩
      intro j q hj
      rcases j with _ | j
      · obtain rfl := Option.some.inj hj
        refine ⟨n.bytes, rfl, ?_⟩
        intro htrue
        exact Bool.noConfusion (hdir.symm.trans htrue)
      · exact htail j q hj
    | true =>
      have hwrite := hbytes hdir
      rw [Nat.add_zero] at hwrite
      refine ⟨{ n with bytes } :: ms, ?_, congrArg Nat.succ hlen, ?_⟩
      · simp only [if_true, Option.bind_eq_bind, hwrite, hms, Option.bind_some, hdir]
      · intro j q hj
        rcases j with _ | j
        · obtain rfl := Option.some.inj hj
          exact ⟨bytes, rfl, hbytes⟩
        · exact htail j q hj

/-! ## Section 5: The card -/

/-- The clusters a host directory needs. -/
def allocation (tree : Listing) : Nat := needFrom (allNodes tree) 0 (allNodes tree)

/-- Node `j`, which was `n` before, on the card. -/
structure Settled (tree : Listing) (v : SdCard) (j : Nat) (n m : Node) : Prop where
  dir : m.dir = n.dir
  host : m.host = n.host
  parent : m.parent = n.parent
  size : n.dir = false → m.size = n.size
  count : m.count = (m.size + (kClus - 1)) / kClus
  extent : m.count ≠ 0 → { first := m.first, count := m.count, node := j } ∈ v.extents ∧
    m.first + m.count < 2 ^ 32
  first : m.count = 0 → m.first = 0
  bytes : n.dir = true → m.count ≠ 0 ∧ m.bytes.length = m.count * kClus
  children : ∀ sub : Listing, n.dir = true → n.kids = sub.kids (j + 1) →
    At (allNodes tree) (j + 1) (sub.nodes j (j + 1)) → ∃ es : List Entry,
      List.Forall₂ Names ((sub.children v.nodes (j + 1)).map fun c => c.name.bytes) es ∧
      Fat.readDir m.bytes = some (dotRecs (upOf v.nodes j m) ++
        List.zipWith Kid.record (sub.children v.nodes (j + 1)) es)

/-- What `buildVirtual` makes of a host directory. -/
structure Built (tree : Listing) (v : SdCard) : Prop where
  clusters : v.clusters = max (allocation tree + 1024) kMinClusters
  fatSz : v.fatSz = ((v.clusters + 2) * 4 + 511) / 512
  dataStart : v.dataStart = kReserved + 2 * v.fatSz
  total : v.total = v.dataStart + v.clusters * kSecPerClus
  overlay : ∀ lba, v.overlay lba = none
  packed : Extents.Packed Extent.first Extent.stop 2 v.extents (2 + allocation tree)
  owner : ∀ x ∈ v.extents, ∃ m, v.nodes[x.node]? = some m ∧ m.count ≠ 0 ∧ m.first = x.first ∧
    m.count = x.count
  root : ∀ m, v.nodes[0]? = some m → m.count ≠ 0 → m.first = 2
  length : v.nodes.length = (allNodes tree).length
  nodes : ∀ j n, (allNodes tree)[j]? = some n → ∃ m, v.nodes[j]? = some m ∧ Settled tree v j n m

/-- Node by node, the directories are all that changes when they are written. -/
theorem same_filled {as bs : List Node} (hlen : bs.length = as.length)
    (h : ∀ (j : Nat) (n : Node), as[j]? = some n → ∃ bytes, bs[j]? = some { n with bytes }) (k : Nat) :
    ∃ bytes, node bs k = { node as k with bytes } := by
  cases hk : as[k]? with
  | none =>
    have hnone : bs[k]? = none := by
      rw [List.getElem?_eq_none_iff, hlen]
      exact List.getElem?_eq_none_iff.mp hk
    refine ⟨[], ?_⟩
    rw [node, node, List.getD_eq_getElem?_getD, List.getD_eq_getElem?_getD, hnone, hk]
    rfl
  | some n =>
    obtain ⟨bytes, hb⟩ := h k n hk
    exact ⟨bytes, by rw [node_eq hb, node_eq hk]⟩

theorem upOf_congr {as bs : List Node} {i : Nat} {n m : Node} (hfirst : m.first = n.first)
    (hparent : m.parent = n.parent) (h : ∀ k, (node bs k).first = (node as k).first) :
    upOf bs i m = upOf as i n := by
  rw [upOf, upOf, hfirst, hparent]
  split
  · rfl
  · cases n.parent with
    | none => rfl
    | some p => simp only [h p]

/-- A placed node with its bytes. -/
theorem settled_of {tree : Listing} {v : SdCard} {nodes : List Node} {j : Nat} {n : Node}
    {p : Node × List Entry} {bytes : Bytes} (hn : (allNodes tree)[j]? = some n)
    (hp : Placed (allNodes tree) v.extents j n p) (hwrite : Writes nodes j p bytes)
    (hdirs : ∀ i m, (allNodes tree)[i]? = some m → (node nodes i).dir = m.dir)
    (hfill : ∀ k, ∃ bytes, node v.nodes k = { node nodes k with bytes }) :
    Settled tree v j n { p.1 with bytes } := by
  have hfirst : ∀ k, (node v.nodes k).first = (node nodes k).first := by
    intro k
    obtain ⟨b, hb⟩ := hfill k
    rw [hb]
  have hsize : ∀ k, (node v.nodes k).size = (node nodes k).size := by
    intro k
    obtain ⟨b, hb⟩ := hfill k
    rw [hb]
  have hdir : p.1.dir = n.dir := by rw [hp.same]
  have hread : ∀ sub : Listing, n.dir = true → n.kids = sub.kids (j + 1) →
      At (allNodes tree) (j + 1) (sub.nodes j (j + 1)) → bytes.length = p.1.count * kClus ∧
        Fat.readDir bytes = some (dotRecs (upOf nodes j p.1) ++
          List.zipWith Kid.record (sub.children nodes (j + 1)) p.2) := by
    intro sub hd hkids hat
    obtain ⟨bytes', hbytes, hlen, hrecs⟩ := dirBytes_placed hp hd hkids hat hdirs
    obtain rfl := Option.some.inj ((hwrite (hdir.trans hd)).symm.trans hbytes)
    exact ⟨hlen, hrecs⟩
  constructor
  case dir => exact hdir
  case host =>
    show p.1.host = n.host
    rw [hp.same]
  case parent =>
    show p.1.parent = n.parent
    rw [hp.same]
  case size =>
    intro hfile
    have hsized := hp.sized
    rw [sized, hfile] at hsized
    exact (Prod.mk.inj (Option.some.inj hsized)).1.symm
  case count => exact hp.count
  case extent => exact hp.extent
  case first =>
    intro hzero
    rw [hp.first hzero]
    exact (fresh_allNodes tree hn).first
  case bytes =>
    intro hd
    obtain ⟨sub, hkids, hat⟩ := (fresh_allNodes tree hn).kids hd
    refine ⟨?_, (hread sub hd hkids hat).1⟩
    have hsized := hp.sized
    rw [sized, if_pos hd] at hsized
    obtain ⟨es, -, hsome⟩ := Option.bind_eq_some_iff.mp hsized
    have hslots := (Prod.mk.inj (Option.some.inj hsome)).1
    have hk : kClus = 4096 := rfl
    show p.1.count ≠ 0
    rw [hp.count, hk]
    omega
  case children =>
    intro sub hd hkids hat
    have hsized := hp.sized
    rw [sized, if_pos hd, hkids, names_children sub hat v.nodes] at hsized
    obtain ⟨es, hes, hsome⟩ := Option.bind_eq_some_iff.mp hsized
    obtain ⟨-, rfl⟩ := Prod.mk.inj (Option.some.inj hsome)
    have hup : upOf v.nodes j { p.1 with bytes } = upOf nodes j p.1 := upOf_congr rfl rfl hfirst
    have hchildren : sub.children v.nodes (j + 1) = sub.children nodes (j + 1) :=
      children_congr sub (j + 1) fun k => ⟨hfirst k, hsize k⟩
    refine ⟨p.2, names_entriesOf hes, ?_⟩
    rw [hup, hchildren]
    exact (hread sub hd hkids hat).2

theorem built {tree : Listing} (hfit : AliasesFit (allNodes tree))
    (halloc : allocation tree < 2 ^ 28) : ∃ v, buildVirtual tree = some v ∧ Built tree v := by
  have hlow : 2 + needFrom (allNodes tree) 0 (allNodes tree) < 2 ^ 32 := by
    rw [allocation] at halloc
    omega
  obtain ⟨l, hl, hend, hpacked, hlen, hplaced⟩ := layoutFrom_eq hfit _ (fun _ h => h) hlow
  have hat : ∀ j n, (allNodes tree)[j]? = some n →
      ∃ p, l.nodes[j]? = some p ∧ Placed (allNodes tree) l.extents j n p := by
    intro j n hj
    obtain ⟨p, hp, hpl⟩ := hplaced j n hj
    rw [Nat.zero_add] at hpl
    exact ⟨p, hp, hpl⟩
  have hfrom : ∀ j p, l.nodes[j]? = some p →
      ∃ n, (allNodes tree)[j]? = some n ∧ Placed (allNodes tree) l.extents j n p := by
    intro j p hj
    obtain ⟨hlt, -⟩ := List.getElem?_eq_some_iff.mp hj
    obtain ⟨n, hn⟩ : ∃ n, (allNodes tree)[j]? = some n :=
      ⟨_, List.getElem?_eq_getElem (by omega)⟩
    obtain ⟨q, hq, hpl⟩ := hat j n hn
    rw [hj] at hq
    obtain rfl := Option.some.inj hq
    exact ⟨n, hn, hpl⟩
  have hfst : ∀ j p, l.nodes[j]? = some p → node (l.nodes.map Prod.fst) j = p.1 := by
    intro j p hj
    exact node_eq (by rw [List.getElem?_map, hj]; rfl)
  have hsame : ∀ j n, (allNodes tree)[j]? = some n →
      (node (l.nodes.map Prod.fst) j).dir = n.dir := by
    intro j n hj
    obtain ⟨p, hp, hpl⟩ := hat j n hj
    rw [hfst j p hp, hpl.same]
  have hwrites : ∀ j p, l.nodes[j]? = some p → ∃ bytes,
      Writes (l.nodes.map Prod.fst) (0 + j) p bytes := by
    intro j p hj
    obtain ⟨n, hn, hpl⟩ := hfrom j p hj
    have hdir : p.1.dir = n.dir := by rw [hpl.same]
    rw [Nat.zero_add]
    cases hn' : n.dir with
    | false => exact ⟨[], fun h => Bool.noConfusion ((hdir.trans hn').symm.trans h)⟩
    | true =>
      obtain ⟨sub, hkids, hsub⟩ := (fresh_allNodes tree hn).kids hn'
      obtain ⟨bytes, hbytes, -⟩ := dirBytes_placed hpl hn' hkids hsub hsame
      exact ⟨bytes, fun _ => hbytes⟩
  obtain ⟨ms, hms, hmlen, hfill⟩ := fillFrom_eq l.nodes hwrites
  have hfilled : ∀ k, ∃ bytes, node ms k = { node (l.nodes.map Prod.fst) k with bytes } := by
    apply same_filled
    · rw [hmlen, List.length_map]
    · intro j n hj
      rw [List.getElem?_map] at hj
      obtain ⟨p, hp, rfl⟩ := Option.map_eq_some_iff.mp hj
      obtain ⟨bytes, hbytes, -⟩ := hfill j p hp
      exact ⟨bytes, hbytes⟩
  -- no sum wraps
  have hclusters : (l.next + (2 ^ 32 - 2) + 1024) % 2 ^ 32 = allocation tree + 1024 := by
    rw [hend, allocation]
    rw [allocation] at halloc
    omega
  have hlarge : max (allocation tree + 1024) kMinClusters < 2 ^ 28 + 2 ^ 17 := by
    have hk : kMinClusters = 65589 := rfl
    omega
  generalize hc : max (allocation tree + 1024) kMinClusters = clusters at hlarge
  have hfat : ((clusters + 2) * 4 + 511) % 2 ^ 32 = (clusters + 2) * 4 + 511 :=
    Nat.mod_eq_of_lt (by omega)
  have hstart : (kReserved + 2 * (((clusters + 2) * 4 + 511) / 512)) % 2 ^ 32 =
      kReserved + 2 * (((clusters + 2) * 4 + 511) / 512) := by
    have hr : kReserved = 32 := rfl
    exact Nat.mod_eq_of_lt (by omega)
  have hbuild : buildVirtual tree = some {
      nodes := ms, extents := l.extents, fatSz := ((clusters + 2) * 4 + 511) / 512
      clusters := clusters, dataStart := kReserved + 2 * (((clusters + 2) * 4 + 511) / 512)
      total := kReserved + 2 * (((clusters + 2) * 4 + 511) / 512) + clusters * kSecPerClus
      overlay := fun _ => none } := by
    rw [buildVirtual]
    show (layoutFrom (allNodes tree) 0 2 (allNodes tree)).bind _ = _
    rw [hl, Option.bind_some, hclusters, hc]
    simp only [hms, hfat, hstart, Option.bind_eq_bind, Option.bind_some]
  refine ⟨_, hbuild, ?_⟩
  constructor
  case clusters => exact hc.symm
  case fatSz => rfl
  case dataStart => rfl
  case total => rfl
  case overlay => exact fun _ => rfl
  case packed =>
    rw [hend] at hpacked
    exact hpacked
  case owner =>
    intro x hx
    obtain ⟨j, p, hp, hpos, rfl⟩ := extents_layoutFrom hl x hx
    obtain ⟨bytes, hm, -⟩ := hfill j p hp
    rw [Nat.zero_add]
    exact ⟨_, hm, hpos, rfl, rfl⟩
  case root =>
    intro m hm hcount
    obtain ⟨hlt, -⟩ := List.getElem?_eq_some_iff.mp hm
    have hp := List.getElem?_eq_getElem (hmlen ▸ hlt : 0 < l.nodes.length)
    obtain ⟨bytes, hm', -⟩ := hfill 0 _ hp
    obtain rfl := Option.some.inj (hm.symm.trans hm')
    exact first_layoutFrom hl hp hcount
  case length => exact hmlen.trans hlen
  case nodes =>
    intro j n hj
    obtain ⟨p, hp, hpl⟩ := hat j n hj
    obtain ⟨bytes, hm, hwrite⟩ := hfill j p hp
    rw [Nat.zero_add] at hwrite
    exact ⟨_, hm, settled_of hj hpl hwrite hsame hfilled⟩

end Sd
