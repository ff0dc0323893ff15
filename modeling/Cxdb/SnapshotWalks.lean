import Cxdb.SnapshotAgreement

/-!
# Walking Snapshots

A snapshot is walked from its root: each entry of a tree object is shown to a callback under its
path, and behind a directory come the entries of its own tree object. The two clients put paths
together with what their libraries have for it, which comes to the same for the names that
directories can have.

## Main results

* `walk_of_visits`: a walk is a fold over the entries that are visited.
* `visits_of_walk`: a walk that ends without an error has visited some entries.
* `Visits.eq_of_agree`: snapshots whose tree objects agree show the same below equal trees.
* `Visits.rust`: the two clients visit the same, under the same paths.
-/

open ByteFormat

namespace Cxdb

/-! ### Paths -/

/-- One component of a path in `filepath.Clean`. -/
def Go.cleanStep (rooted : Bool) (kept : List Bytes) (c : Bytes) : List Bytes :=
  if c = [] ∨ c = [46] then kept
  else if c = [46, 46] then
    match kept.getLast? with
    | some last => if last = [46, 46] then kept ++ [c] else kept.dropLast
    | none => if rooted then kept else kept ++ [c]
  else kept ++ [c]

/-- `filepath.Clean`. -/
def Go.clean (path : Bytes) : Bytes :=
  let rooted := decide (path.head? = some PathMatch.separator)
  let kept := (path.splitOn PathMatch.separator).foldl (Go.cleanStep rooted) []
  let clean := (if rooted then [PathMatch.separator] else []) ++
    [PathMatch.separator].intercalate kept
  if clean = [] then [46] else clean

/-- `filepath.Join`. -/
def Go.joinPath (pre name : Bytes) : Bytes :=
  if pre ≠ [] then Go.clean (pre ++ PathMatch.separator :: name)
  else if name ≠ [] then Go.clean name
  else []

/-- `Path::join`: an absolute name replaces the path. -/
def Rust.joinPath (pre name : Bytes) : Bytes :=
  if name.head? = some PathMatch.separator then name
  else if pre = [] ∨ pre.getLast? = some PathMatch.separator then pre ++ name
  else pre ++ PathMatch.separator :: name

/-- What the two clients do differently when they walk a snapshot. -/
structure TreeReader where
  join : Bytes → Bytes → Bytes
  /-- A path as the callback is given it. -/
  text : Bytes → Bytes

def Go.treeReader : TreeReader := ⟨Go.joinPath, id⟩

def Rust.treeReader : TreeReader := ⟨Rust.joinPath, toStringLossy⟩

/-- The path of an entry behind a prefix. -/
def TreeReader.pathOf (r : TreeReader) (pre name : Bytes) : Bytes :=
  if pre = [] then name else r.join pre name

/-! ### Walks -/

/-- `GetTree` and `get_tree`. -/
def Snapshot.getTree (s : Snapshot) (hash : Hash) : Except FstreeError (List TreeEntry) :=
  match s.trees.lookup hash with
  | some entries => .ok entries
  | none => .error .other

section Walk

variable (r : TreeReader) (s : Snapshot) {σ : Type}
  (fn : Bytes → TreeEntry → σ → Except FstreeError σ)

/-- The loop of `walkTree` over the entries of a tree, where `walk` is the recursive call. -/
def walkEntries (walk : Hash → Bytes → σ → Option (Except FstreeError σ)) (pre : Bytes) :
    List TreeEntry → σ → Option (Except FstreeError σ)
  | [], state => some (.ok state)
  | entry :: entries, state =>
      let path := r.pathOf pre entry.name
      match fn (r.text path) entry state with
      | .error e => some (.error e)
      | .ok state =>
        match if entry.kind = .directory then walk entry.hash path state
          else some (.ok state) with
        | some (.ok state) => walkEntries walk pre entries state
        | some (.error e) => some (.error e)
        | none => none

/-- `walkTree`. The callback `fn` has a state. The fuel bounds how deep it goes. -/
def walkTree : ℕ → Hash → Bytes → σ → Option (Except FstreeError σ)
  | 0, _, _, _ => none
  | fuel + 1, hash, pre, state =>
      match s.getTree hash with
      | .error e => some (.error e)
      | .ok entries => walkEntries r fn (walkTree fuel) pre entries state

/-- `Walk`. -/
def Snapshot.walk (fuel : ℕ) (state : σ) : Option (Except FstreeError σ) :=
  walkTree r s fn fuel s.rootHash [] state

end Walk

/-! ### What a walk visits -/

/-- A path, as the callback is given it, and the entry there. -/
abbrev Visit := Bytes × TreeEntry

/-- The entries that are visited behind a prefix, from the entries of a tree object. -/
inductive Visits (r : TreeReader) (s : Snapshot) :
    List TreeEntry → Bytes → List Visit → Prop where
  | nil {pre : Bytes} : Visits r s [] pre []
  | leaf {entry : TreeEntry} {entries : List TreeEntry} {pre : Bytes} {vs : List Visit} :
      entry.kind ≠ .directory → Visits r s entries pre vs →
      Visits r s (entry :: entries) pre ((r.text (r.pathOf pre entry.name), entry) :: vs)
  | directory {entry : TreeEntry} {entries below : List TreeEntry} {pre : Bytes}
      {us vs : List Visit} :
      entry.kind = .directory → s.trees.lookup entry.hash = some below →
      Visits r s below (r.pathOf pre entry.name) us → Visits r s entries pre vs →
      Visits r s (entry :: entries) pre
        ((r.text (r.pathOf pre entry.name), entry) :: (us ++ vs))

/-- The same from the root. -/
def Snapshot.Visits (r : TreeReader) (s : Snapshot) (vs : List Visit) : Prop :=
  ∃ entries, s.trees.lookup s.rootHash = some entries ∧ Cxdb.Visits r s entries [] vs

variable {r : TreeReader} {s : Snapshot} {σ : Type}

theorem Snapshot.getTree_of_lookup {hash : Hash} {entries : List TreeEntry}
    (h : s.trees.lookup hash = some entries) : s.getTree hash = .ok entries := by
  rw [Snapshot.getTree, h]

theorem Snapshot.lookup_of_getTree {hash : Hash} {entries : List TreeEntry}
    (h : s.getTree hash = .ok entries) : s.trees.lookup hash = some entries := by
  rw [Snapshot.getTree] at h
  split at h
  · next hlookup => exact hlookup.trans (congrArg some (Except.ok.inj h))
  · cases h

theorem walkEntries_of_visits {entries : List TreeEntry} {pre : Bytes} {vs : List Visit}
    (h : Visits r s entries pre vs) :
    ∃ bound, ∀ fuel, bound ≤ fuel →
      ∀ (fn : Bytes → TreeEntry → σ → Except FstreeError σ) (state : σ),
        walkEntries r fn (walkTree r s fn fuel) pre entries state =
          some (vs.foldlM (fun state v => fn v.1 v.2 state) state) := by
  induction h with
  | nil => exact ⟨0, fun _ _ _ _ => rfl⟩
  | @leaf entry entries pre vs hkind _ ih =>
      obtain ⟨bound, ih⟩ := ih
      refine ⟨bound, fun fuel hfuel fn state => ?_⟩
      rw [walkEntries, List.foldlM_cons]
      cases hfn : fn (r.text (r.pathOf pre entry.name)) entry state with
      | error e => rfl
      | ok state' =>
          simp only [if_neg hkind]
          exact ih fuel hfuel fn state'
  | @directory entry entries below pre us vs hkind hbelow _ _ ihbelow ih =>
      obtain ⟨bound, ih⟩ := ih
      obtain ⟨bound', ihbelow⟩ := ihbelow
      refine ⟨max bound (bound' + 1), fun fuel hfuel fn state => ?_⟩
      obtain ⟨hle, hle'⟩ := max_le_iff.mp hfuel
      obtain ⟨fuel, rfl⟩ : ∃ n, fuel = n + 1 := ⟨fuel - 1, by omega⟩
      rw [walkEntries, List.foldlM_cons]
      cases hfn : fn (r.text (r.pathOf pre entry.name)) entry state with
      | error e => rfl
      | ok state' =>
          have hwalk : walkTree r s fn (fuel + 1) entry.hash (r.pathOf pre entry.name) state' =
              some (us.foldlM (fun state v => fn v.1 v.2 state) state') := by
            rw [walkTree, Snapshot.getTree_of_lookup hbelow]
            exact ihbelow fuel (by omega) fn state'
          simp only [if_pos hkind, hwalk]
          change _ = some (List.foldlM _ state' (us ++ vs))
          rw [List.foldlM_append]
          cases us.foldlM (fun state v => fn v.1 v.2 state) state' with
          | error e => rfl
          | ok state'' => exact ih (fuel + 1) hle fn state''

/-- **A walk is a fold over what it visits**, with enough fuel. -/
theorem walk_of_visits {vs : List Visit} (h : s.Visits r vs) :
    ∃ bound, ∀ fuel, bound ≤ fuel →
      ∀ (fn : Bytes → TreeEntry → σ → Except FstreeError σ) (state : σ),
        s.walk r fn fuel state = some (vs.foldlM (fun state v => fn v.1 v.2 state) state) := by
  obtain ⟨entries, hroot, hvisits⟩ := h
  obtain ⟨bound, hwalk⟩ := walkEntries_of_visits (σ := σ) hvisits
  refine ⟨bound + 1, fun fuel hfuel fn state => ?_⟩
  obtain ⟨fuel, rfl⟩ : ∃ n, fuel = n + 1 := ⟨fuel - 1, by omega⟩
  rw [Snapshot.walk, walkTree, Snapshot.getTree_of_lookup hroot]
  exact hwalk fuel (by omega) fn state

theorem visits_of_walkEntries {walk : Hash → Bytes → σ → Option (Except FstreeError σ)}
    {fn : Bytes → TreeEntry → σ → Except FstreeError σ}
    (hwalk : ∀ {hash path state state'}, walk hash path state = some (.ok state') →
      ∃ below us, s.trees.lookup hash = some below ∧ Visits r s below path us ∧
        us.foldlM (fun state v => fn v.1 v.2 state) state = .ok state')
    {entries : List TreeEntry} {pre : Bytes} {state state' : σ}
    (h : walkEntries r fn walk pre entries state = some (.ok state')) :
    ∃ vs, Visits r s entries pre vs ∧
      vs.foldlM (fun state v => fn v.1 v.2 state) state = .ok state' := by
  induction entries generalizing state with
  | nil => exact ⟨[], .nil, Option.some.inj h⟩
  | cons entry entries ih =>
      rw [walkEntries] at h
      split at h
      · cases h
      · next state₁ hfn =>
        split at h
        · next state₂ hinner =>
          obtain ⟨vs, hvs, hfold⟩ := ih h
          by_cases hkind : entry.kind = .directory
          · rw [if_pos hkind] at hinner
            obtain ⟨below, us, hbelow, hus, hfold'⟩ := hwalk hinner
            refine ⟨_, .directory hkind hbelow hus hvs, ?_⟩
            rw [List.foldlM_cons, hfn]
            change List.foldlM _ state₁ (us ++ vs) = _
            rw [List.foldlM_append, hfold']
            exact hfold
          · rw [if_neg hkind] at hinner
            obtain rfl := Except.ok.inj (Option.some.inj hinner)
            refine ⟨_, .leaf hkind hvs, ?_⟩
            rw [List.foldlM_cons, hfn]
            exact hfold
        · cases h
        · cases h

/-- **What a walk has visited** that ends without an error. -/
theorem visits_of_walk {fn : Bytes → TreeEntry → σ → Except FstreeError σ} {fuel : ℕ}
    {state state' : σ} (h : s.walk r fn fuel state = some (.ok state')) :
    ∃ vs, s.Visits r vs ∧ vs.foldlM (fun state v => fn v.1 v.2 state) state = .ok state' := by
  have hwalk : ∀ fuel {hash path} {state state' : σ},
      walkTree r s fn fuel hash path state = some (.ok state') →
        ∃ below us, s.trees.lookup hash = some below ∧ Visits r s below path us ∧
          us.foldlM (fun state v => fn v.1 v.2 state) state = .ok state' := by
    intro fuel
    induction fuel with
    | zero =>
        intro hash path state state' h
        cases h
    | succ fuel ih =>
        intro hash path state state' h
        rw [walkTree] at h
        cases htree : s.getTree hash with
        | error e =>
            rw [htree] at h
            cases h
        | ok entries =>
            rw [htree] at h
            obtain ⟨vs, hvs, hfold⟩ := visits_of_walkEntries ih h
            exact ⟨entries, vs, Snapshot.lookup_of_getTree htree, hvs, hfold⟩
  obtain ⟨below, us, hbelow, hus, hfold⟩ := hwalk fuel h
  exact ⟨us, ⟨below, hbelow, hus⟩, hfold⟩

/-- **Snapshots whose tree objects agree** show the same below equal trees. -/
theorem Visits.eq_of_agree {s' : Snapshot}
    (hagree : ∀ {hash entries entries'}, s.trees.lookup hash = some entries →
      s'.trees.lookup hash = some entries' → entries = entries')
    {entries : List TreeEntry} {pre : Bytes} {vs vs' : List Visit}
    (h : Visits r s entries pre vs) (h' : Visits r s' entries pre vs') : vs = vs' := by
  induction h generalizing vs' with
  | nil =>
      cases h'
      rfl
  | leaf hkind _ ih =>
      cases h' with
      | leaf _ hvs' => rw [ih hvs']
      | directory hkind' => exact absurd hkind' hkind
  | directory hkind hbelow _ _ ihbelow ih =>
      cases h' with
      | leaf hkind' => exact absurd hkind hkind'
      | directory _ hbelow' hus' hvs' =>
          obtain rfl := hagree hbelow hbelow'
          rw [ihbelow hus', ih hvs']

/-! ### Names of files -/

/-- A name that a directory can have for an entry. -/
structure IsFileName (name : Bytes) : Prop where
  ne_nil : name ≠ []
  no_separator : PathMatch.separator ∉ name
  ne_dot : name ≠ [46]
  ne_dots : name ≠ [46, 46]

theorem Path.text_concat {p : Path} (hp : p ≠ []) (name : Bytes) :
    Path.text (p ++ [name]) = p.text ++ PathMatch.separator :: name := by
  induction p with
  | nil => exact absurd rfl hp
  | cons c p ih =>
      cases p with
      | nil => simp [Path.text]
      | cons d p =>
          have hcons : ∀ q : Path, Path.text (c :: d :: q) =
              c ++ PathMatch.separator :: Path.text (d :: q) := by
            intro q
            rw [Path.text, List.intercalate_cons_cons, Path.text]
            simp
          rw [List.cons_append, List.cons_append, hcons, hcons, ← List.cons_append,
            ih (List.cons_ne_nil _ _), List.append_assoc, List.cons_append]

theorem Path.head_text {p : Path} (hp : p ≠ []) (hnames : ∀ c ∈ p, IsFileName c) :
    p.text ≠ [] ∧ p.text.head? ≠ some PathMatch.separator := by
  obtain ⟨c, q, rfl⟩ := List.exists_cons_of_ne_nil hp
  have hc := hnames c List.mem_cons_self
  obtain ⟨b, bs, rfl⟩ := List.exists_cons_of_ne_nil hc.ne_nil
  have htext : ∃ rest, Path.text ((b :: bs) :: q) = b :: rest := by
    cases q with
    | nil => exact ⟨bs, by simp [Path.text]⟩
    | cons d q => exact ⟨_, by rw [Path.text, List.intercalate_cons_cons, List.cons_append,
        List.cons_append]⟩
  obtain ⟨rest, hrest⟩ := htext
  rw [hrest]
  refine ⟨List.cons_ne_nil _ _, fun h => hc.no_separator ?_⟩
  rw [← Option.some.inj h]
  exact List.mem_cons_self

theorem Path.getLast_text {p : Path} (hp : p ≠ []) (hnames : ∀ c ∈ p, IsFileName c) :
    p.text.getLast? ≠ some PathMatch.separator := by
  obtain ⟨q, c, rfl⟩ := List.eq_nil_or_concat p |>.resolve_left hp
  rw [List.concat_eq_append] at hnames ⊢
  have hc := hnames c (by simp)
  have hlast : (Path.text (q ++ [c])).getLast? = c.getLast? := by
    by_cases hq : q = []
    · simp [hq, Path.text]
    · rw [Path.text_concat hq, List.getLast?_append, List.getLast?_cons]
      simp [List.getLast?_eq_some_getLast hc.ne_nil]
  rw [hlast]
  exact fun h => hc.no_separator (List.mem_of_getLast? h)

/-- A path of such names is clean. -/
theorem Go.clean_text {p : Path} (hp : p ≠ []) (hnames : ∀ c ∈ p, IsFileName c) :
    Go.clean p.text = p.text := by
  have hsplit : p.text.splitOn PathMatch.separator = p :=
    List.splitOn_intercalate _ (fun c hc => (hnames c hc).no_separator) hp
  have hkept : ∀ kept : Path, p.foldl (Go.cleanStep false) kept = kept ++ p := by
    clear hsplit hp
    induction p with
    | nil => simp
    | cons c p ih =>
        intro kept
        have hc := hnames c List.mem_cons_self
        rw [List.foldl_cons, ih fun d hd => hnames d (List.mem_cons_of_mem _ hd), Go.cleanStep,
          if_neg (not_or.mpr ⟨hc.ne_nil, hc.ne_dot⟩), if_neg hc.ne_dots, List.append_assoc,
          List.singleton_append]
  obtain ⟨hne, hhead⟩ := Path.head_text hp hnames
  rw [Go.clean, hsplit, decide_eq_false hhead]
  simp only [Bool.false_eq_true, if_false, List.nil_append, hkept]
  exact if_neg hne

/-- **Both clients** put the path of an entry behind a prefix. -/
theorem pathOf_text {p : Path} (hnames : ∀ c ∈ p, IsFileName c) {name : Bytes}
    (hname : IsFileName name) :
    Go.treeReader.pathOf p.text name = Path.text (p ++ [name]) ∧
      Rust.treeReader.pathOf p.text name = Path.text (p ++ [name]) := by
  rw [TreeReader.pathOf, TreeReader.pathOf]
  by_cases hp : p = []
  · subst hp
    have hnil : Path.text [] = [] := rfl
    rw [if_pos hnil, List.nil_append]
    simp [Path.text]
  · obtain ⟨hne, -⟩ := Path.head_text hp hnames
    have hall : ∀ c ∈ p ++ [name], IsFileName c := by
      intro c hc
      rcases List.mem_append.mp hc with hc | hc
      · exact hnames c hc
      · exact List.mem_singleton.mp hc ▸ hname
    have hhead : name.head? ≠ some PathMatch.separator := fun h =>
      hname.no_separator (List.mem_of_mem_head? h)
    rw [if_neg hne, if_neg hne]
    constructor
    · change Go.joinPath p.text name = _
      rw [Go.joinPath, if_pos hne, ← Path.text_concat hp]
      exact Go.clean_text (by simp) hall
    · change Rust.joinPath p.text name = _
      rw [Rust.joinPath, if_neg hhead,
        if_neg (not_or.mpr ⟨hne, Path.getLast_text hp hnames⟩), ← Path.text_concat hp]

/-- A name in UTF-8 that a directory can have. -/
structure IsTextName (name : Bytes) : Prop where
  fileName : IsFileName name
  utf8 : ∃ s : String, name = utf8Bytes s

theorem Path.text_utf8 {p : Path} (h : ∀ c ∈ p, IsTextName c) :
    ∃ s : String, p.text = utf8Bytes s := by
  induction p using List.reverseRecOn with
  | nil => exact ⟨"", by simp [Path.text, utf8Bytes]⟩
  | append_singleton p c ih =>
      obtain ⟨t, ht⟩ := (h c (by simp)).utf8
      by_cases hp : p = []
      · exact ⟨t, by simp [hp, Path.text, ht]⟩
      · obtain ⟨s, hs⟩ := ih fun d hd => h d (by simp [hd])
        refine ⟨s ++ "/" ++ t, ?_⟩
        rw [Path.text_concat hp, hs, ht, utf8Bytes_append, utf8Bytes_append, List.append_assoc]
        rfl

/-- The names of a snapshot are in UTF-8, and directories can have them. -/
def Snapshot.Named (s : Snapshot) : Prop :=
  ∀ {hash entries}, s.trees.lookup hash = some entries → ∀ e ∈ entries, IsTextName e.name

/-- **The two clients visit the same**, under the same paths. -/
theorem Visits.rust (hs : s.Named) {entries : List TreeEntry} {p : Path} {vs : List Visit}
    (hp : ∀ c ∈ p, IsTextName c) (hentries : ∀ e ∈ entries, IsTextName e.name)
    (h : Visits Go.treeReader s entries p.text vs) :
    Visits Rust.treeReader s entries p.text vs := by
  have hpath : ∀ {p : Path} {e : TreeEntry}, (∀ c ∈ p, IsTextName c) → IsTextName e.name →
      Go.treeReader.pathOf p.text e.name = Rust.treeReader.pathOf p.text e.name ∧
        Go.treeReader.text (Go.treeReader.pathOf p.text e.name) =
          Rust.treeReader.text (Rust.treeReader.pathOf p.text e.name) := by
    intro p e hp he
    obtain ⟨hgo, hrust⟩ := pathOf_text (fun c hc => (hp c hc).fileName) he.fileName
    obtain ⟨t, ht⟩ := Path.text_utf8 (p := p ++ [e.name]) fun c hc =>
      (List.mem_append.mp hc).elim (hp c) fun hc => List.mem_singleton.mp hc ▸ he
    rw [hgo, hrust]
    refine ⟨rfl, ?_⟩
    change Path.text (p ++ [e.name]) = toStringLossy (Path.text (p ++ [e.name]))
    rw [ht, toStringLossy_utf8Bytes]
  generalize hpre : p.text = pre at h ⊢
  induction h generalizing p with
  | nil => exact .nil
  | @leaf e entries pre vs hkind _ ih =>
      subst hpre
      rw [(hpath hp (hentries e List.mem_cons_self)).2]
      exact .leaf hkind (ih hp (fun e he => hentries e (List.mem_cons_of_mem _ he)) rfl)
  | @directory e entries below pre us vs hkind hbelow _ _ ihbelow ih =>
      subst hpre
      have he := hentries e List.mem_cons_self
      obtain ⟨heq, htext⟩ := hpath hp he
      have hchild : Path.text (p ++ [e.name]) = Go.treeReader.pathOf p.text e.name :=
        (pathOf_text (fun c hc => (hp c hc).fileName) he.fileName).1.symm
      have hus := ihbelow (p := p ++ [e.name])
        (fun c hc => (List.mem_append.mp hc).elim (hp c) fun hc => List.mem_singleton.mp hc ▸ he)
        (hs hbelow) hchild
      rw [htext]
      rw [heq] at hus
      exact .directory hkind hbelow hus
        (ih hp (fun e he => hentries e (List.mem_cons_of_mem _ he)) rfl)

theorem Snapshot.Visits.rust (hs : s.Named) {vs : List Visit} (h : s.Visits Go.treeReader vs) :
    s.Visits Rust.treeReader vs := by
  obtain ⟨entries, hroot, hvs⟩ := h
  exact ⟨entries, hroot, Cxdb.Visits.rust (p := []) hs (by simp) (hs hroot) hvs⟩

end Cxdb
