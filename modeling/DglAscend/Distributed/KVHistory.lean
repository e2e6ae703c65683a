import DglAscend.Distributed.KVCluster

/-!
# What the clients pull

The history of a client is what it pushed and what its pulls returned.  In every run, whatever happens in
between, each row that a pull returns is the first row of its id or one that was pushed for it
(`KVSystem.run_pullsWritten`), and no client is stuck (`KVSystem.run_goesOn`).  With one server on each machine
a client that alone pushes to an id pulls the row that it pushed last (`KVSystem.run_pullsOwn`).
-/

namespace DglAscend.Distributed

variable {κ : Type} [DecidableEq κ] {α : Type}

/-! ## Rows of one id -/

/-- The rows that are written to an id. -/
def rowsFor (id : ℤ) (ws : List (ℤ × α)) : List α := (ws.filter fun w => w.1 = id).map Prod.snd

variable {id : ℤ} {ws : List (ℤ × α)}

lemma mem_rowsFor {x : α} : x ∈ rowsFor id ws ↔ (id, x) ∈ ws := by
  simp [rowsFor]

/-- The rows of a request for one id of one tensor. -/
def Request.writes (name : String) (id : ℤ) : Request α → List α
  | .pull _ _ => []
  | .push name' ws => if name' = name then rowsFor id ws else []

/-- The rows that a `push` of a client has for one id of one tensor. -/
def Event.writes (name : String) (id : ℤ) : Event α → List α
  | .pull _ _ _ => []
  | .push name' ids data => if name' = name then rowsFor id (ids.zip data) else []

/-- The rows of the last push that has some; before it there are `xs`. -/
def latest : List α → List (List α) → List α
  | xs, [] => xs
  | xs, ys :: l => latest (if ys = [] then xs else ys) l

lemma latest_append (xs : List α) (l l' : List (List α)) :
    latest xs (l ++ l') = latest (latest xs l) l' := by
  induction l generalizing xs with
  | nil => rfl
  | cons ys l ih => exact ih _

lemma latest_subset {xs xs' : List α} (h : xs ⊆ xs') (l : List (List α)) :
    latest xs l ⊆ latest xs' l := by
  induction l generalizing xs xs' with
  | nil => exact h
  | cons ys l ih =>
      apply ih
      by_cases hys : ys = []
      · rwa [if_pos hys, if_pos hys]
      · rw [if_neg hys, if_neg hys]
        exact List.Subset.refl _

variable {name name' : String} {table table' : String → ℤ → α}

/-- **A write** to the row of an id. -/
lemma WroteTo.row (h : WroteTo name' ws table table') (name : String) (id : ℤ) : table' name id ∈
      (if (Request.push name' ws).writes name id = [] then [table name id]
        else (Request.push name' ws).writes name id) := by
  by_cases hname : name' = name
  · subst hname
    rw [Request.writes, if_pos rfl]
    by_cases hid : id ∈ ws.map Prod.fst
    · have hmem := mem_rowsFor.2 (h.2.written id hid)
      rw [if_neg (List.ne_nil_of_mem hmem)]
      exact hmem
    · have hnil : rowsFor id ws = [] := by
        rw [List.eq_nil_iff_forall_not_mem]
        exact fun x hx => hid (List.mem_map_of_mem (mem_rowsFor.1 hx))
      rw [if_pos hnil, h.2.frame id hid]
      exact List.mem_singleton_self _
  · have hnil : (Request.push name' ws).writes name id = [] := if_neg hname
    rw [if_pos hnil, h.1 name (Ne.symm hname)]
    exact List.mem_singleton_self _

/-- A request that does not name the id leaves its row. -/
lemma WroteTo.row_eq (h : WroteTo name' ws table table')
    (hnil : (Request.push name' ws).writes name id = []) : table' name id = table name id := by
  have hrow := h.row name id
  rw [if_pos hnil] at hrow
  exact List.mem_singleton.1 hrow

lemma writes_eq_nil {T : Tensors κ} {machineCount m : ℕ}
    (hfits : Fits T machineCount m name' (ws.map Prod.fst)) (hid : (T.policy name).owner id ≠ m) :
    (Request.push name' ws).writes name id = [] := by
  by_cases hname : name' = name
  · subst hname
    rw [Request.writes, if_pos rfl, List.eq_nil_iff_forall_not_mem]
    exact fun x hx => hid (hfits.owner id (List.mem_map_of_mem (mem_rowsFor.1 hx)))
  · exact if_neg hname

namespace KVSystem

/-- Before a run. -/
structure Initial (T : Tensors κ) (sys : KVSystem κ α) (table : String → ℤ → α) : Prop where
  served : Served T sys.kv table
  home_lt : ∀ c, sys.home c < sys.kv.machineCount
  phase : ∀ c, sys.phase c = .idle
  requests : ∀ c s, sys.requests c s = []
  responses : ∀ s c, sys.responses s c = []
  history : ∀ c, sys.history c = []

variable {T : Tensors κ} {sys sys' : KVSystem κ α} {table table' : String → ℤ → α}

lemma Initial.inv (h : sys.Initial T table) (Right : ℕ → String → ℤ → α → Prop) :
    sys.Inv T Right table where
  served := h.served
  home_lt := h.home_lt
  fits c s r hr := by
    rw [h.requests] at hr
    cases hr
  last c s pre r post hr := by
    rw [h.requests] at hr
    cases (List.append_eq_nil_iff.1 hr.symm).2
  phase c := by
    rw [h.phase]
    intro s
    rw [h.requests, h.responses]
    exact ⟨fun r hr => absurd hr List.not_mem_nil, rfl⟩

/-- The history only grows, and the machines are as they were. -/
lemma history_extends (h : Moves T sys table sys' table') :
    (∀ c, sys.history c <+: sys'.history c) ∧ sys'.kv.groupCount = sys.kv.groupCount ∧
      sys'.home = sys.home := by
  have hrecord (c : ℕ) (e : Event α) (phase : Phase α) (c' : ℕ) :
      sys.history c' <+: ((sys.record c e).setPhase c phase).history c' := by
    by_cases hc : c' = c
    · subst hc
      simp [record, setPhase]
    · simp [record, setPhase, Function.update_of_ne hc]
  cases h with
  | push c name ids data => exact ⟨hrecord c _ _, rfl, rfl⟩
  | finishPull c call rows => exact ⟨hrecord c _ _, rfl, rfl⟩
  | _ => exact ⟨fun _ => List.prefix_rfl, rfl, rfl⟩

/-- **What holds in every run**: a property of the states that all moves keep. -/
theorem run_induction (P : KVSystem κ α → (String → ℤ → α) → Prop)
    (Right : KVSystem κ α → ℕ → String → ℤ → α → Prop)
    (hstep : ∀ sys table sys' table', sys.Inv T (Right sys) table → P sys table →
      Moves T sys table sys' table' → P sys' table' ∧ sys'.Inv T (Right sys') table')
    {actions : List (Action α)}
    (hallowed : ∀ a ∈ actions, a.Allowed T) (hinv : sys.Inv T (Right sys) table) (hP : P sys table)
    (hrun : sys.run actions = some sys') : ∃ table', P sys' table' ∧
      sys'.Inv T (Right sys') table' := by
  induction actions generalizing sys table with
  | nil =>
      obtain rfl := Option.some.inj hrun
      exact ⟨table, hP, hinv⟩
  | cons a actions ih =>
      obtain ⟨sys₁, hstep₁, hrun⟩ := Option.bind_eq_some_iff.1 hrun
      obtain ⟨table₁, hmove⟩ := hinv.moves (hallowed a List.mem_cons_self) hstep₁
      obtain ⟨hP₁, hinv₁⟩ := hstep sys table sys₁ table₁ hinv hP hmove
      exact ih (fun b hb => hallowed b (List.mem_cons_of_mem _ hb)) hinv₁ hP₁ hrun

/-! ## The own pushes -/

/-- The writes of a client to an id of machine `m` that have not been carried out. -/
def pending (sys : KVSystem κ α) (c m : ℕ) (name : String) (id : ℤ) : List (List α) :=
  (sys.requests c m).map (Request.writes name id) ++
    match sys.phase c with
    | .pushing name' unsent own =>
      ((unsent ++ own).filter fun x => x.1 = m).map fun x => (Request.push name' x.2).writes name id
    | _ => []

/-- No other client has pushed to the id. -/
def Sole (sys : KVSystem κ α) (c : ℕ) (name : String) (id : ℤ) : Prop :=
  ∀ c' ≠ c, ∀ e ∈ sys.history c', e.writes name id = []

/-- The rows of the last push of a client to an id. -/
def last (sys : KVSystem κ α) (init : String → ℤ → α) (c : ℕ) (name : String) (id : ℤ) : List α :=
  latest [init name id] ((sys.history c).map (Event.writes name id))

/-- A client that alone pushes to an id: what is on the way leads to its last push. -/
structure Own (T : Tensors κ) (init : String → ℤ → α) (c : ℕ) (name : String) (id : ℤ)
    (sys : KVSystem κ α)
    (table : String → ℤ → α) : Prop where
  requests : ∀ c' ≠ c, ∀ s, ∀ r ∈ sys.requests c' s, r.writes name id = []
  pushing : ∀ c' ≠ c, ∀ name' unsent own, sys.phase c' = .pushing name' unsent own →
    ∀ x ∈ unsent ++ own,
    (Request.push name' x.2).writes name id = []
  onTheWay : latest [table name id] (sys.pending c ((T.policy name).owner id) name id) ⊆
    sys.last init c name id
  pulled : ∀ before ids rows after, sys.history c = before ++ .pull name ids rows :: after →
    List.Forall₂ (fun id' x => id' = id → x ∈ latest [init name id] (before.map (Event.writes name id))) ids rows

/-- What is known of the rows of the id. -/
def OwnRight (init : String → ℤ → α) (c : ℕ) (name : String) (id : ℤ) (sys : KVSystem κ α) (c' : ℕ)
    (name' : String) (id' : ℤ) (x : α) : Prop :=
  sys.Sole c name id → c' = c → name' = name → id' = id → x ∈ sys.last init c name id

variable {init : String → ℤ → α} {c c' s s' : ℕ}

/-- **What a client reads of its own.**  Its request for the row comes behind all its writes. -/
lemma Own.reads (hgroup : sys.kv.groupCount = 1)
    (hinv : sys.Inv T (OwnRight init c name id sys) table)
    (h : sys.Sole c name id → Own T init c name id sys table) :
    Reads T (OwnRight init c name id sys) sys table := by
  constructor
  · rintro c' s name' ids rest hrequests id' hid' hsole rfl rfl rfl
    have hmem : .pull name' ids ∈ sys.requests c' s := by rw [hrequests]; exact List.mem_cons_self
    have hs : (T.policy name').owner id' = s := by
      have howner := (hinv.fits c' s _ hmem).2.owner id' hid'
      rwa [hgroup, Nat.div_one] at howner
    have hrest : rest = [] := hinv.last c' s [] _ rest hrequests rfl
    have hpending := (h hsole).onTheWay
    have hnil : sys.pending c' s name' id' = [[]] := by
      have hok := hinv.phase c'
      rw [pending, hrequests, hrest]
      cases hphase : sys.phase c' with
      | idle => rfl
      | pulling call => rfl
      | pushing name'' unsent own =>
          rw [hphase] at hok
          have hpull := (hok.1 s).1 _ hmem
          cases hpull
    rw [hs, hnil] at hpending
    exact hpending (List.mem_singleton_self _)
  · rintro c' call hphase - - id' hid' howner hsole rfl hname rfl
    have hpending := (h hsole).onTheWay
    have hnil : sys.pending c' ((T.policy name).owner id') name id' = [] := by
      rw [pending, hphase, List.append_nil, List.map_eq_nil_iff, List.eq_nil_iff_forall_not_mem]
      intro r hr
      have hne := (hinv.fits c' _ r hr).1
      rw [hgroup, Nat.div_one, ← hname, howner] at hne
      exact hne rfl
    rw [hnil] at hpending
    rw [hname]
    exact hpending (List.mem_singleton_self _)

/-- **One more call** in the history of a client. -/
lemma pulled_append {init : List α} {history : List (Event α)} {e : Event α}
    (h : ∀ before ids rows after, history = before ++ .pull name ids rows :: after →
      List.Forall₂ (fun id' x => id' = id → x ∈ latest init (before.map (Event.writes name id))) ids rows)
    (he : ∀ ids rows, e = .pull name ids rows →
      List.Forall₂ (fun id' x => id' = id → x ∈ latest init (history.map (Event.writes name id))) ids rows) :
    ∀ before ids rows after, history ++ [e] = before ++ .pull name ids rows :: after →
      List.Forall₂ (fun id' x => id' = id → x ∈ latest init (before.map (Event.writes name id))) ids rows := by
  intro before ids rows after heq
  rcases List.eq_nil_or_concat' after with rfl | ⟨after', e', rfl⟩
  · obtain ⟨rfl, hlast⟩ := List.append_inj' heq rfl
    exact he ids rows (List.singleton_inj.1 hlast)
  · have heq' : history ++ [e] = (before ++ .pull name ids rows :: after') ++ [e'] := by simpa using heq
    exact h before ids rows after' (List.append_inj' heq' rfl).1

omit [DecidableEq κ] in
lemma Sole.of_grow (h : sys'.Sole c name id) (hgrow : ∀ c, sys.history c <+: sys'.history c) :
    sys.Sole c name id :=
  fun c' hc e he => h c' hc e ((hgrow c').subset he)

lemma latest_carry {l : List (List α)} {xs : List α}
    (h : latest [table name id] ((Request.push name' ws).writes name id :: l) ⊆ xs)
    (hwrote : WroteTo name' ws table table') : latest [table' name id] l ⊆ xs :=
  fun _ hx => h (latest_subset (fun _ hy => List.mem_singleton.1 hy ▸ hwrote.row name id) l hx)

variable {policy : String → PartitionPolicy κ} {parts : List (ℕ × List (ℤ × α))}

/-- The slice of a push for one machine has its rows for an id of this machine. -/
lemma mem_part_writes {ids : List ℤ} {data : List α}
    (hpart : ∀ x ∈ parts, x.2.Perm ((ids.zip data).filter fun w => (policy name').owner w.1 = x.1))
    {x : ℕ × List (ℤ × α)} (hx : x ∈ parts) {y : α} : y ∈ (Request.push name' x.2).writes name id ↔
      y ∈ (Event.push name' ids data).writes name id ∧
      (name' = name → (policy name).owner id = x.1) := by
  by_cases hname : name' = name
  · subst hname
    rw [Request.writes, Event.writes, if_pos rfl, if_pos rfl, mem_rowsFor, mem_rowsFor,
      (hpart x hx).mem_iff,
      List.mem_filter, decide_eq_true_eq]
    simp
  · simp [Request.writes, Event.writes, hname]

/-- **A push** puts its rows behind those on the way. -/
lemma latest_parts {ids : List ℤ} {data : List α} {home : ℕ} (hnodup : (parts.map Prod.fst).Nodup)
    (howner : ∀ id ∈ ids, (policy name').owner id ∈ parts.map Prod.fst)
    (hpart : ∀ x ∈ parts, x.2.Perm ((ids.zip data).filter fun w => (policy name').owner w.1 = x.1))
    (id : ℤ) (xs : List α) :
    latest xs ((((parts.filter fun x => x.1 ≠ home) ++ parts.filter fun x => x.1 = home).filter
        fun x => x.1 = (policy name).owner id).map fun x =>
        (Request.push name' x.2).writes name id) ⊆
      latest xs [(Event.push name' ids data).writes name id] := by
  set m := (policy name).owner id
  set own := ((parts.filter fun x => x.1 ≠ home) ++ parts.filter fun x => x.1 = home).filter fun x => x.1 = m
  have hperm : own.Perm (parts.filter fun x => x.1 = m) := by
    apply List.Perm.filter
    have happend := List.filter_append_perm (fun x : ℕ × List (ℤ × α) => decide (x.1 ≠ home)) parts
    convert happend using 3
    simp
  have hlen : own.length ≤ 1 := by
    rw [hperm.length_eq, ← count_map]
    exact List.nodup_iff_count_le_one.1 hnodup m
  match hown : own, hlen with
  | [], _ =>
      -- No id is on the machine.
      have hnil : (Event.push name' ids data).writes name id = [] := by
        rw [List.eq_nil_iff_forall_not_mem]
        intro y hy
        by_cases hname : name' = name
        · subst hname
          rw [Event.writes, if_pos rfl, mem_rowsFor] at hy
          obtain ⟨x, hx, hxm⟩ := List.mem_map.1 (howner id (List.of_mem_zip hy).1)
          have hmem : x ∈ parts.filter fun x => x.1 = m :=
            List.mem_filter.2 ⟨hx, decide_eq_true hxm⟩
          rw [← hperm.mem_iff] at hmem
          cases hmem
        · rw [Event.writes, if_neg hname] at hy
          cases hy
      rw [List.map_nil, latest, latest, if_pos hnil, latest]
      exact List.Subset.refl _
  | [x], _ =>
      obtain ⟨hx, hxm⟩ := List.mem_filter.1 (hperm.mem_iff.1 List.mem_cons_self)
      have hmem (y : α) : y ∈ (Request.push name' x.2).writes name id ↔
          y ∈ (Event.push name' ids data).writes name id := by
        rw [mem_part_writes hpart hx, and_iff_left]
        exact fun _ => (of_decide_eq_true hxm).symm
      simp only [List.map_cons, List.map_nil, latest]
      by_cases hnil : (Event.push name' ids data).writes name id = []
      · have hnil' : (Request.push name' x.2).writes name id = [] :=
          List.eq_nil_iff_forall_not_mem.2 fun y hy => by simp [hnil] at hmem; exact hmem y hy
        rw [if_pos hnil, if_pos hnil']
        exact List.Subset.refl _
      · have hnil' : (Request.push name' x.2).writes name id ≠ [] := by
          obtain ⟨y, hy⟩ := List.exists_mem_of_ne_nil _ hnil
          exact List.ne_nil_of_mem ((hmem y).2 hy)
        rw [if_neg hnil, if_neg hnil']
        exact fun y hy => (hmem y).1 hy

omit [DecidableEq κ] in
lemma mem_setRequests {l : List (Request α)} {r : Request α}
    (h : r ∈ (sys.setRequests c' s' l).requests c s) :
    r ∈ sys.requests c s ∨ c = c' ∧ s = s' ∧ r ∈ l := by
  by_cases hc : c = c'
  · subst hc
    simp only [setRequests, Function.update_self] at h
    by_cases hs : s = s'
    · subst hs
      rw [Function.update_self] at h
      exact Or.inr ⟨rfl, rfl, h⟩
    · rw [Function.update_of_ne hs] at h
      exact Or.inl h
  · simp only [setRequests, Function.update_of_ne hc] at h
    exact Or.inl h

omit [DecidableEq κ] in
lemma setPhase_eq {phase phase' : Phase α} (h : (sys.setPhase c' phase').phase c = phase) :
    c = c' ∧ phase' = phase ∨ sys.phase c = phase := by
  by_cases hc : c = c'
  · subst hc
    rw [setPhase_phase] at h
    exact Or.inl ⟨rfl, h⟩
  · exact Or.inr ((Function.update_of_ne hc _ _).symm.trans h)

/-- **Where a request comes from**: it was there, it pulls, or it was the next one of a push. -/
lemma mem_requests_of_moves (hmove : Moves T sys table sys' table') {r : Request α}
    (hr : r ∈ sys'.requests c s) : r ∈ sys.requests c s ∨ (∃ name ids, r = .pull name ids) ∨
      ∃ name m ws unsent own, sys.phase c = .pushing name ((m, ws) :: unsent) own ∧ r = .push name ws := by
  cases hmove with
  | sendPush c' s' name m ws unsent own hphase =>
      rcases mem_setRequests hr with hr | ⟨rfl, rfl, hr⟩
      · exact Or.inl hr
      · rcases List.mem_append.1 hr with hr | hr
        · exact Or.inl hr
        · exact Or.inr (Or.inr ⟨name, m, ws, unsent, own, hphase, List.mem_singleton.1 hr⟩)
  | sendPull c' s' call m ids unsent =>
      rcases mem_setRequests hr with hr | ⟨rfl, rfl, hr⟩
      · exact Or.inl hr
      · rcases List.mem_append.1 hr with hr | hr
        · exact Or.inl hr
        · exact Or.inr (Or.inl ⟨_, _, List.mem_singleton.1 hr⟩)
  | servePull c' s' name ids rest hrequests =>
      rcases mem_setRequests hr with hr | ⟨rfl, rfl, hrest⟩
      · exact Or.inl hr
      · exact Or.inl (hrequests ▸ List.mem_cons_of_mem _ hrest)
  | servePush c' s' name ws rest target table' hrequests =>
      rcases mem_setRequests hr with hr | ⟨rfl, rfl, hrest⟩
      · exact Or.inl hr
      · exact Or.inl (hrequests ▸ List.mem_cons_of_mem _ hrest)
  | _ => exact Or.inl hr

/-- **Where the parts of a push come from**: they were there, or the push begins. -/
lemma pushing_of_moves (hmove : Moves T sys table sys' table')
    {unsent own : List (ℕ × List (ℤ × α))} (hphase : sys'.phase c = .pushing name unsent own) :
    (∃ unsent' own', sys.phase c = .pushing name unsent' own' ∧ unsent ++ own ⊆ unsent' ++ own') ∨
      ∃ ids data, .push name ids data ∈ sys'.history c ∧ ∀ x ∈ unsent ++ own, ∀ name' id,
        (Request.push name x.2).writes name' id ⊆ (Event.push name ids data).writes name' id := by
  cases hmove with
  | push c' name' ids data parts hphase' hlen hfits hnodup howner hpart =>
      rcases setPhase_eq hphase with ⟨rfl, heq⟩ | hphase
      · obtain ⟨rfl, rfl, rfl⟩ : name' = name ∧ _ = unsent ∧ _ = own := by simpa using heq
        refine Or.inr ⟨ids, data, by simp [setPhase, record], fun x hx name'' id y hy => ?_⟩
        have hx' : x ∈ parts := (List.mem_append.1 hx).elim List.mem_of_mem_filter List.mem_of_mem_filter
        exact ((mem_part_writes hpart hx').1 hy).1
      · exact Or.inl ⟨_, _, hphase, List.Subset.refl _⟩
  | sendPush c' s name' m ws unsent' own' hphase' =>
      rcases setPhase_eq hphase with ⟨rfl, heq⟩ | hphase
      · obtain ⟨rfl, rfl, rfl⟩ : name' = name ∧ unsent' = unsent ∧ own' = own := by simpa using heq
        exact Or.inl ⟨_, _, hphase', List.subset_cons_self _ _⟩
      · exact Or.inl ⟨_, _, hphase, List.Subset.refl _⟩
  | ownPush c' name' m ws own' target table' hphase' =>
      rcases setPhase_eq hphase with ⟨rfl, heq⟩ | hphase
      · obtain ⟨rfl, rfl, rfl⟩ : name' = name ∧ [] = unsent ∧ own' = own := by simpa using heq
        exact Or.inl ⟨_, _, hphase', List.subset_cons_self _ _⟩
      · exact Or.inl ⟨_, _, hphase, List.Subset.refl _⟩
  | servePull => exact Or.inl ⟨_, _, hphase, List.Subset.refl _⟩
  | servePush => exact Or.inl ⟨_, _, hphase, List.Subset.refl _⟩
  | _ =>
      rcases setPhase_eq hphase with ⟨rfl, heq⟩ | hphase
      · cases heq
      · exact Or.inl ⟨_, _, hphase, List.Subset.refl _⟩

/-- **Each move keeps what is on the way** to the id. -/
lemma Own.onTheWay_of_moves (hgroup : sys.kv.groupCount = 1)
    (hinv : sys.Inv T (OwnRight init c name id sys) table) (h : Own T init c name id sys table)
    (hmove : Moves T sys table sys' table') :
    latest [table' name id] (sys'.pending c ((T.policy name).owner id) name id) ⊆
      sys'.last init c name id := by
  -- A move of another client, and one of the client that is no push.
  have hother (hrequests : sys'.requests c = sys.requests c) (hphase : sys'.phase c = sys.phase c)
      (hhistory : sys'.history c = sys.history c) (htable : table' name id = table name id) :
      latest [table' name id] (sys'.pending c ((T.policy name).owner id) name id) ⊆
        sys'.last init c name id := by
    rw [htable, KVSystem.pending, hrequests, hphase, KVSystem.last, hhistory]
    exact h.onTheWay
  have hstill (hhistory : sys'.history c = sys.history c)
      (hpending : latest [table' name id] (sys'.pending c ((T.policy name).owner id) name id) ⊆
        latest [table name id] (sys.pending c ((T.policy name).owner id) name id)) :
      latest [table' name id] (sys'.pending c ((T.policy name).owner id) name id) ⊆
        sys'.last init c name id := by
    rw [KVSystem.last, hhistory]
    exact fun x hx => h.onTheWay (hpending hx)
  cases hmove with
  | push c' name' ids data parts hphase hlen hfits hnodup howner hpart =>
      by_cases hc : c = c'
      · subst hc
        have hon := h.onTheWay
        rw [KVSystem.pending, hphase, List.append_nil] at hon
        simp only [KVSystem.pending, KVSystem.last, setPhase, record, Function.update_self,
          List.map_append, List.map_cons, List.map_nil]
        rw [latest_append, latest_append]
        exact fun x hx => latest_subset hon _ (latest_parts hnodup howner hpart id _ hx)
      · exact hother rfl (Function.update_of_ne hc _ _) (Function.update_of_ne hc _ _) rfl
  | sendPush c' s name' m' ws unsent own hphase hs =>
      rw [hgroup, Nat.div_one] at hs
      subst hs
      by_cases hc : c = c'
      · subst hc
        refine hstill rfl ?_
        rw [KVSystem.pending, KVSystem.pending, setPhase_phase, hphase]
        simp only [setPhase, setRequests, Function.update_self, List.cons_append]
        by_cases hsm : s = (T.policy name).owner id
        · -- The request for the machine goes from the client to the wire.
          rw [hsm, Function.update_self, List.filter_cons_of_pos (by simp), List.map_append,
            List.append_assoc]
          exact List.Subset.refl _
        · rw [Function.update_of_ne (Ne.symm hsm), List.filter_cons_of_neg (by simpa using hsm)]
          exact List.Subset.refl _
      · exact hother (Function.update_of_ne hc _ _) (Function.update_of_ne hc _ _) rfl rfl
  | sendPull c' s call m' ids unsent hphase hunsent hs =>
      by_cases hc : c = c'
      · subst hc
        refine hstill rfl ?_
        rw [KVSystem.pending, KVSystem.pending, setPhase_phase, hphase]
        simp only [setPhase, setRequests, Function.update_self, List.append_nil]
        by_cases hsm : (T.policy name).owner id = s
        · rw [hsm, Function.update_self, List.map_append, latest_append]
          exact List.Subset.refl _
        · rw [Function.update_of_ne hsm]
          exact List.Subset.refl _
      · exact hother (Function.update_of_ne hc _ _) (Function.update_of_ne hc _ _) rfl rfl
  | ownPush c' name' m' ws own target table' hphase hserved hwrote =>
      have hok := hinv.phase c'
      rw [hphase] at hok
      obtain ⟨hm', hfits⟩ := hok.2.2 _ List.mem_cons_self
      by_cases hc : c = c'
      · subst hc
        refine hstill rfl ?_
        rw [KVSystem.pending, KVSystem.pending, setPhase_phase, hphase]
        simp only [setPhase, List.nil_append]
        by_cases hmm : m' = (T.policy name).owner id
        · -- There are no requests to the own machine.
          have hnone : sys.requests c ((T.policy name).owner id) = [] := by
            rw [List.eq_nil_iff_forall_not_mem]
            intro r hr
            have hne := (hinv.fits c _ r hr).1
            rw [hgroup, Nat.div_one, ← hmm] at hne
            exact hne hm'
          rw [hnone, List.map_nil, List.nil_append, List.nil_append,
            List.filter_cons_of_pos (by simpa using hmm),
            List.map_cons]
          exact latest_carry (List.Subset.refl _) hwrote
        · rw [List.filter_cons_of_neg (by simpa using hmm), hwrote.row_eq (writes_eq_nil hfits (Ne.symm hmm))]
          exact List.Subset.refl _
      · exact hother rfl (Function.update_of_ne hc _ _) rfl
          (hwrote.row_eq (h.pushing c' (Ne.symm hc) _ _ _ hphase (m', ws) (by simp)))
  | servePull c' s name' ids rest hrequests =>
      by_cases hc : c = c'
      · subst hc
        refine hstill rfl ?_
        rw [KVSystem.pending, KVSystem.pending]
        simp only [setRequests, setResponses, Function.update_self]
        by_cases hsm : (T.policy name).owner id = s
        · rw [hsm, Function.update_self, hrequests]
          exact List.Subset.refl _
        · rw [Function.update_of_ne hsm]
          exact List.Subset.refl _
      · exact hother (Function.update_of_ne hc _ _) rfl rfl rfl
  | servePush c' s name' ws rest target table' hrequests hserved hwrote =>
      have hmem : Request.push name' ws ∈ sys.requests c' s := by
        rw [hrequests]; exact List.mem_cons_self
      have hfits := (hinv.fits c' s _ hmem).2
      rw [hgroup, Nat.div_one] at hfits
      by_cases hc : c = c'
      · subst hc
        refine hstill rfl ?_
        rw [KVSystem.pending, KVSystem.pending]
        simp only [setRequests, Function.update_self]
        by_cases hsm : (T.policy name).owner id = s
        · rw [hsm, Function.update_self, hrequests]
          exact latest_carry (List.Subset.refl _) hwrote
        · rw [Function.update_of_ne hsm, hwrote.row_eq (writes_eq_nil hfits hsm)]
          exact List.Subset.refl _
      · exact hother (Function.update_of_ne hc _ _) rfl rfl
          (hwrote.row_eq (h.requests c' (Ne.symm hc) s _ hmem))
  | finishPull c' call rows hphase =>
      by_cases hc : c = c'
      · subst hc
        have hon := h.onTheWay
        rw [KVSystem.pending, hphase] at hon
        rw [KVSystem.pending, setPhase_phase, KVSystem.last]
        simp only [setPhase, record, Function.update_self, List.map_append, List.map_cons,
          List.map_nil]
        rw [latest_append [init name id]]
        exact hon
      · exact hother rfl (Function.update_of_ne hc _ _) (Function.update_of_ne hc _ _) rfl
  | pull c' name' ids hphase | ownPull c' call result hphase
  | receive c' s call response rest result hphase | finishPush c' name' hphase =>
      by_cases hc : c = c'
      · subst hc
        refine hstill rfl ?_
        rw [KVSystem.pending, KVSystem.pending, setPhase_phase, hphase]
        exact List.Subset.refl _
      · exact hother rfl (Function.update_of_ne hc _ _) rfl rfl

/-- **Each move keeps what is known of the own pushes.** -/
theorem Own.of_moves (hgroup : sys.kv.groupCount = 1)
    (hinv : sys.Inv T (OwnRight init c name id sys) table) (h : Own T init c name id sys table)
    (hmove : Moves T sys table sys' table') (hsole : sys'.Sole c name id) :
    Own T init c name id sys' table' := by
  have hsole' := hsole.of_grow (history_extends hmove).1
  refine ⟨fun c' hc s r hr => ?_, fun c' hc name' unsent own hphase x hx => ?_,
    h.onTheWay_of_moves hgroup hinv hmove, ?_⟩
  · rcases mem_requests_of_moves hmove hr with hr | ⟨name', ids, rfl⟩ | ⟨name', m, ws, unsent, own, hphase, rfl⟩
    · exact h.requests c' hc s r hr
    · rfl
    · exact h.pushing c' hc _ _ _ hphase (m, ws) List.mem_cons_self
  · rcases pushing_of_moves hmove hphase with ⟨unsent', own', hphase', hsub⟩ | ⟨ids, data, he, hsub⟩
    · exact h.pushing c' hc _ _ _ hphase' x (hsub hx)
    · have hnil := hsub x hx name id
      rw [hsole c' hc _ he] at hnil
      exact List.subset_nil.1 hnil
  · cases hmove with
    | push c' name' ids data =>
        by_cases hc : c = c'
        · subst hc
          simp only [setPhase, record, Function.update_self]
          exact pulled_append h.pulled fun _ _ he => by cases he
        · simp only [setPhase, record, Function.update_of_ne hc]
          exact h.pulled
    | finishPull c' call rows hphase hcopied hlen hrows =>
        by_cases hc : c = c'
        · subst hc
          have hok := hinv.phase c
          rw [hphase] at hok
          have hok : call.Ok T sys (OwnRight init c name id sys c) c := hok
          simp only [setPhase, record, Function.update_self]
          refine pulled_append h.pulled fun ids rows' he => ?_
          obtain ⟨hname', rfl, rfl⟩ : call.name = name ∧ call.ids = ids ∧ rows = rows' := by
            simpa using he
          obtain ⟨rows', hrows', hright⟩ := hok.exists_rows hinv.served hcopied hlen
          obtain rfl := Except.ok.inj (hrows.symm.trans hrows')
          exact hright.imp fun id' x hx => hx hsole' rfl hname'
        · simp only [setPhase, record, Function.update_of_ne hc]
          exact h.pulled
    | _ => exact h.pulled

/-- A client that pulls has made no push since. -/
lemma last_eq {call : PullCall α} (hphase : sys.phase c = .pulling call)
    (hmove : Moves T sys table sys' table') (name : String) (id : ℤ) :
    sys'.last init c name id = sys.last init c name id := by
  cases hmove with
  | push c' name' ids data parts hphase' =>
      have hc : c ≠ c' := by
        rintro rfl
        rw [hphase] at hphase'
        cases hphase'
      simp only [KVSystem.last, setPhase, record, Function.update_of_ne hc]
  | finishPull c' call' rows =>
      by_cases hc : c = c'
      · subst hc
        simp only [KVSystem.last, setPhase, record, Function.update_self, List.map_append,
          latest_append]
        rfl
      · simp only [KVSystem.last, setPhase, record, Function.update_of_ne hc]
  | _ => rfl

/-- **A client that alone pushes to an id pulls what it pushed last**, with one server on each machine: in every
run, a row that it pulled for the id is one of those that its last push before had for the id, and the first row
when there was none. -/
theorem run_pullsOwn (T : Tensors κ) (init : String → ℤ → α) (sys sys' : KVSystem κ α)
    (actions : List (Action α))
    (c : ℕ) (name : String) (id : ℤ) (h : sys.Initial T init) (hgroup : sys.kv.groupCount = 1)
    (hallowed : ∀ a ∈ actions, a.Allowed T) (hrun : sys.run actions = some sys')
    (hsole : sys'.Sole c name id)
    (before : List (Event α)) (ids : List ℤ) (rows : List α) (after : List (Event α))
    (hpull : sys'.history c = before ++ .pull name ids rows :: after) :
    List.Forall₂ (fun id' x => id' = id → x ∈ latest [init name id] (before.map (Event.writes name id))) ids rows := by
  have hinit : sys.Sole c name id → Own T init c name id sys init := by
    refine fun _ => ⟨fun c' _ s r hr => ?_, fun c' _ name' unsent own hphase => ?_, ?_,
      fun before ids rows after heq => ?_⟩
    · rw [h.requests] at hr
      cases hr
    · rw [h.phase] at hphase
      cases hphase
    · rw [pending, h.requests, h.phase, KVSystem.last, h.history]
      exact List.Subset.refl _
    · rw [h.history] at heq
      cases (List.append_eq_nil_iff.1 heq.symm).2
  have hmoves (sys : KVSystem κ α) (table : String → ℤ → α) (sys' : KVSystem κ α)
      (table' : String → ℤ → α)
      (hinv : sys.Inv T (OwnRight init c name id sys) table)
      (hP : sys.kv.groupCount = 1 ∧ (sys.Sole c name id → Own T init c name id sys table))
      (hmove : Moves T sys table sys' table') :
      (sys'.kv.groupCount = 1 ∧ (sys'.Sole c name id → Own T init c name id sys' table')) ∧
        sys'.Inv T (OwnRight init c name id sys') table' := by
    obtain ⟨hgrow, hgroup', -⟩ := history_extends hmove
    refine ⟨⟨hgroup'.trans hP.1, fun hsole => (hP.2 (hsole.of_grow hgrow)).of_moves hP.1 hinv hmove hsole⟩, ?_⟩
    apply hinv.of_moves hmove (Own.reads hP.1 hinv hP.2)
    rintro c' call hphase name' id' x hx hsole rfl hname hid
    rw [last_eq hphase hmove]
    exact hx (hsole.of_grow hgrow) rfl hname hid
  obtain ⟨table, ⟨-, hown⟩, -⟩ := run_induction _ _ hmoves hallowed (h.inv _) ⟨hgroup, hinit⟩ hrun
  exact (hown hsole).pulled before ids rows after hpull

/-- Two machines before a run, with two clients each. -/
def fourClients (groupCount : ℕ) : KVSystem String ℕ where
  kv := twoMachines groupCount
  home c := c % 2
  phase _ := .idle
  requests _ _ := []
  responses _ _ := []
  history _ := []

/-- The tensor `feat`. -/
def feat : Tensors String where
  names := {"feat"}
  policy _ := threeNodes
  size _ := 3

lemma fourClients_initial {groupCount : ℕ} (hgroup : 0 < groupCount) :
    (fourClients groupCount).Initial feat fun _ id => 10 + id.toNat where
  served :=
    { group := hgroup
      name_ne := fun name hname => by
        obtain rfl : name = "feat" := hname
        decide
      hosts := fun name _ => twoMachines_hosts groupCount name
      pull := fun _ _ => rfl
      push := fun _ _ => ⟨_, rfl⟩ }
  home_lt c := Nat.mod_lt c Nat.zero_lt_two
  phase _ := rfl
  requests _ _ := rfl
  responses _ _ := rfl
  history _ := rfl

/-- A client pushes and pulls, while another one pulls. -/
def pushThenPull : List (Action ℕ) :=
  [.push 0 "feat" [2] [99] stableArgsort, .pull 2 "feat" [2], .send 2 1, .send 0 1, .finish 0,
    .pull 0 "feat" [2, 0], .send 0 1, .serve 0 1, .own 0, .serve 2 1, .serve 0 1, .receive 0 1, .finish 0]

lemma pushThenPull_allowed : ∀ a ∈ pushThenPull, a.Allowed feat := by
  intro a ha
  simp only [pushThenPull, List.mem_cons, List.not_mem_nil, or_false] at ha
  rcases ha with rfl | rfl | rfl | rfl | rfl | rfl | rfl | rfl | rfl | rfl | rfl | rfl | rfl
  all_goals trivial

theorem run_pullsOwn_fourClients : ∃ sys', (fourClients 1).run pushThenPull = some sys' ∧
    sys'.history 0 = [.push "feat" [2] [99], .pull "feat" [2, 0] [99, 10]] ∧
    List.Forall₂ (fun (id' : ℤ) x => id' = 2 → x ∈ latest [12] [[99]]) [2, 0] [99, 10] := by
  have hrun : (fourClients 1).run pushThenPull =
    some (((fourClients 1).run pushThenPull).get rfl) := rfl
  refine ⟨_, hrun, rfl, run_pullsOwn feat _ (fourClients 1) _ _ 0 "feat" 2 (fourClients_initial Nat.zero_lt_one) rfl
    pushThenPull_allowed hrun ?_ [.push "feat" [2] [99]] _ _ [] rfl⟩
  intro c hc e he
  change e ∈ Function.update (Function.update (fun _ => []) 0 _) 0 _ c at he
  rw [Function.update_of_ne hc, Function.update_of_ne hc] at he
  cases he

/-- With two servers on each machine the pull can overtake the push. -/
example : ∃ sys', (fourClients 2).run [.push 0 "feat" [2] [99] stableArgsort, .send 0 2, .finish 0,
      .pull 0 "feat" [2], .send 0 3, .own 0, .serve 0 3, .receive 0 3, .finish 0] = some sys' ∧
    sys'.history 0 = [.push "feat" [2] [99], .pull "feat" [2] [12]] := ⟨_, rfl, rfl⟩

/-! ## Any number of servers -/

/-- The first row of an id, or one that some client pushed for it. -/
def Known (init : String → ℤ → α) (sys : KVSystem κ α) (name : String) (id : ℤ) (x : α) : Prop :=
  x = init name id ∨ ∃ c, ∃ e ∈ sys.history c, x ∈ e.writes name id

/-- No row is anywhere but where it belongs. -/
structure AllKnown (init : String → ℤ → α) (sys : KVSystem κ α)
    (table : String → ℤ → α) : Prop where
  table : ∀ name id, sys.Known init name id (table name id)
  requests : ∀ c s, ∀ r ∈ sys.requests c s, ∀ name id, ∀ x ∈ r.writes name id,
    sys.Known init name id x
  pushing : ∀ c name' unsent own, sys.phase c = .pushing name' unsent own → ∀ y ∈ unsent ++ own,
    ∀ name id,
    ∀ x ∈ (Request.push name' y.2).writes name id, sys.Known init name id x
  pulled : ∀ c name ids rows, .pull name ids rows ∈ sys.history c →
    List.Forall₂ (sys.Known init name) ids rows

omit [DecidableEq κ] in
lemma Known.grow {x : α} (h : sys.Known init name id x)
    (hgrow : ∀ c, sys.history c <+: sys'.history c) : sys'.Known init name id x := by
  rcases h with h | ⟨c, e, he, hx⟩
  · exact Or.inl h
  · exact Or.inr ⟨c, e, (hgrow c).subset he, hx⟩

/-- **Each move** leaves all rows where they belong. -/
theorem AllKnown.of_moves (hinv : sys.Inv T (fun _ => sys.Known init) table)
    (h : AllKnown init sys table) (hmove : Moves T sys table sys' table') :
    AllKnown init sys' table' := by
  have hgrow := (history_extends hmove).1
  refine ⟨fun name id => ?_, fun c s r hr name id x hx => ?_,
    fun c name' unsent own hphase y hy name id x hx => ?_, fun c name ids rows hpull => ?_⟩
  · have hwrites {name' : String} {ws : List (ℤ × α)} {table' : String → ℤ → α}
        (hwrote : WroteTo name' ws table table')
        (hws : ∀ x ∈ (Request.push name' ws).writes name id, sys.Known init name id x) :
        sys.Known init name id (table' name id) := by
      have hrow := hwrote.row name id
      split_ifs at hrow with hnil
      · rw [List.mem_singleton.1 hrow]
        exact h.table name id
      · exact hws _ hrow
    refine Known.grow ?_ hgrow
    cases hmove with
    | ownPush c name' m ws own target table' hphase hserved hwrote =>
        exact hwrites hwrote (h.pushing c name' _ _ hphase (m, ws) (by simp) name id)
    | servePush c s name' ws rest target table' hrequests hserved hwrote =>
        exact hwrites hwrote (h.requests c s _ (by rw [hrequests]; exact List.mem_cons_self) name id)
    | _ => exact h.table name id
  · rcases mem_requests_of_moves hmove hr with hr | ⟨name', ids, rfl⟩ | ⟨name', m, ws, unsent, own, hphase, rfl⟩
    · exact (h.requests c s r hr name id x hx).grow hgrow
    · cases hx
    · exact (h.pushing c name' _ own hphase (m, ws) List.mem_cons_self name id x hx).grow hgrow
  · rcases pushing_of_moves hmove hphase with ⟨unsent', own', hphase', hsub⟩ | ⟨ids, data, he, hsub⟩
    · exact (h.pushing c name' _ _ hphase' y (hsub hy) name id x hx).grow hgrow
    · exact Or.inr ⟨c, _, he, hsub y hy name id hx⟩
  · suffices hpulled : List.Forall₂ (sys.Known init name) ids rows from
      hpulled.imp fun id x hx => hx.grow hgrow
    cases hmove with
    | push c' name' ids' data =>
        refine h.pulled c name ids rows ?_
        by_cases hc : c = c'
        · subst hc
          simpa [setPhase, record] using hpull
        · simpa [setPhase, record, Function.update_of_ne hc] using hpull
    | finishPull c' call rows' hphase hcopied hlen hrows =>
        by_cases hc : c = c'
        · subst hc
          have hok := hinv.phase c
          rw [hphase] at hok
          have hok : call.Ok T sys (sys.Known init) c := hok
          simp only [setPhase, record, Function.update_self, List.mem_append,
            List.mem_singleton] at hpull
          rcases hpull with hpull | heq
          · exact h.pulled c name ids rows hpull
          · obtain ⟨rfl, rfl, rfl⟩ : name = call.name ∧ ids = call.ids ∧ rows = rows' := by
              simpa using heq
            obtain ⟨rows, hrows', hright⟩ := hok.exists_rows hinv.served hcopied hlen
            obtain rfl := Except.ok.inj (hrows.symm.trans hrows')
            exact hright
        · simp only [setPhase, record, Function.update_of_ne hc] at hpull
          exact h.pulled c name ids rows hpull
    | _ => exact h.pulled c name ids rows hpull

/-- **Pulled rows belong to their ids**, with any number of servers: in every run, each row that a client pulled
for an id is the first one or one that some client pushed for this id of this tensor. -/
theorem run_pullsKnown (T : Tensors κ) (init : String → ℤ → α) (sys sys' : KVSystem κ α)
    (actions : List (Action α))
    (h : sys.Initial T init) (hallowed : ∀ a ∈ actions, a.Allowed T)
    (hrun : sys.run actions = some sys')
    (c : ℕ) (name : String) (ids : List ℤ) (rows : List α)
    (hpull : .pull name ids rows ∈ sys'.history c) :
    List.Forall₂ (fun id x => x = init name id ∨
      ∃ c' ids' data, .push name ids' data ∈ sys'.history c' ∧
      (id, x) ∈ ids'.zip data) ids rows := by
  have hinit : AllKnown init sys init := by
    refine ⟨fun name id => Or.inl rfl, fun c s r hr => ?_, fun c name' unsent own hphase => ?_,
      fun c name ids rows hpull => ?_⟩
    · rw [h.requests] at hr
      cases hr
    · rw [h.phase] at hphase
      cases hphase
    · rw [h.history] at hpull
      cases hpull
  have hmoves (sys : KVSystem κ α) (table : String → ℤ → α) (sys' : KVSystem κ α)
      (table' : String → ℤ → α)
      (hinv : sys.Inv T (fun _ => sys.Known init) table) (hP : AllKnown init sys table)
      (hmove : Moves T sys table sys' table') :
      AllKnown init sys' table' ∧ sys'.Inv T (fun _ => sys'.Known init) table' := by
    refine ⟨hP.of_moves hinv hmove, hinv.of_moves hmove ⟨?_, ?_⟩ ?_⟩
    · exact fun c s name ids rest _ id _ => hP.table name id
    · exact fun c call _ _ _ id _ _ => hP.table call.name id
    · exact fun c call _ name id x hx => hx.grow (history_extends hmove).1
  obtain ⟨table, hknown, -⟩ := run_induction _ _ hmoves hallowed (h.inv _) hinit hrun
  refine (hknown.pulled c name ids rows hpull).imp fun id x hx => hx.imp_right ?_
  rintro ⟨c', e, he, hx⟩
  cases e with
  | pull name' ids' rows' => cases hx
  | push name' ids' data =>
      by_cases hname : name' = name
      · subst hname
        rw [Event.writes, if_pos rfl, mem_rowsFor] at hx
        exact ⟨c', ids', data, he, hx⟩
      · rw [Event.writes, if_neg hname] at hx
        cases hx

theorem run_pullsKnown_fourClients : ∃ sys', (fourClients 1).run pushThenPull = some sys' ∧
    List.Forall₂ (fun (id : ℤ) x => x = 10 + id.toNat ∨
      ∃ c' ids' data, .push "feat" ids' data ∈ sys'.history c' ∧ (id, x) ∈ ids'.zip data) [2, 0] [99, 10] := by
  have hrun : (fourClients 1).run pushThenPull =
    some (((fourClients 1).run pushThenPull).get rfl) := rfl
  exact ⟨_, hrun, run_pullsKnown feat _ (fourClients 1) _ _ (fourClients_initial Nat.zero_lt_one) pushThenPull_allowed
    hrun 0 "feat" [2, 0] [99, 10] (List.mem_cons_of_mem _ List.mem_cons_self)⟩

/-! ## Nobody is stuck -/

variable {Right : ℕ → String → ℤ → α → Prop}

/-- **No request fails.** -/
lemma Inv.serve_isSome (h : sys.Inv T Right table) (hrequests : sys.requests c s ≠ []) :
    (sys.step (.serve c s)).isSome = true := by
  obtain ⟨r, rest, heq⟩ := List.exists_cons_of_ne_nil hrequests
  have hfits := (h.fits c s r (by rw [heq]; exact List.mem_cons_self)).2
  simp only [step, serve, heq]
  cases r with
  | pull name ids =>
      have hfits : Fits T _ _ name ids := hfits
      simp only [h.served.processPull_eq hfits, attempt, Option.isSome_some]
  | push name ws =>
      have hfits : Fits T _ _ name (ws.map Prod.fst) := hfits
      obtain ⟨target, table', hrun, -⟩ := h.served.exists_processPush hfits
      simp only [hrun, attempt, Option.isSome_some]

/-- **A pull goes on.** -/
lemma Inv.pull_goesOn (h : sys.Inv T Right table) (hreads : Reads T Right sys table)
    {call : PullCall α} (hphase : sys.phase c = .pulling call) :
    ∃ a : Action α, a.client = c ∧ (sys.step a).isSome = true := by
  have hok := h.phase c
  rw [hphase] at hok
  have hok : call.Ok T sys (Right c) c := hok
  cases hunsent : call.unsent with
  | cons x unsent =>
      obtain ⟨m, ids⟩ := x
      refine ⟨.send c (m * sys.kv.groupCount), rfl, ?_⟩
      simp [step, send, hphase, hunsent, Nat.mul_div_cancel m h.served.group]
  | nil =>
      cases hcopied : call.copied with
      | false =>
          obtain ⟨result, hcopy, -⟩ := hok.copy h.served (h.home_lt c) hunsent hcopied
            (hreads.copy c call hphase hunsent hcopied)
          refine ⟨.own c, rfl, ?_⟩
          simp [step, own, hphase, hunsent, hcopied, hcopy, attempt]
      | true =>
          have hlens := hok.asked_length hunsent
          by_cases hall : ∀ s, sys.requests c s = [] ∧ sys.responses s c = []
          · have hperm : call.received.Perm call.asked := List.perm_iff_count.2 fun s => by
              have hcount := hok.count s
              simpa [(hall s).1, (hall s).2] using hcount
            have hlen := hperm.length_eq.trans hlens
            obtain ⟨rows, hrows, -⟩ := hok.exists_rows h.served hcopied hlen
            exact ⟨.finish c, rfl, by simp [step, finish, hphase, hcopied, hlen, hrows, attempt]⟩
          · push Not at hall
            obtain ⟨s, hs⟩ := hall
            by_cases hrequests : sys.requests c s = []
            · obtain ⟨response, rest, hresponses⟩ := List.exists_cons_of_ne_nil (hs hrequests)
              obtain ⟨result, hreceive, -⟩ := hok.receive hresponses hcopied
              have hlt := hok.received_lt (s := s) (by rw [hresponses, List.length_cons]; omega)
              rw [hlens] at hlt
              exact ⟨.receive c s, rfl,
                by simp [step, receive, hphase, hresponses, hcopied, hlt, hreceive, attempt]⟩
            · exact ⟨.serve c s, rfl, h.serve_isSome hrequests⟩

/-- **Nobody is stuck**: in every run the next request of each client to each server can be handled, and a client
that pushes or pulls can go on, or one of its requests can be handled. -/
theorem run_goesOn (T : Tensors κ) (init : String → ℤ → α) (sys sys' : KVSystem κ α)
    (actions : List (Action α))
    (h : sys.Initial T init) (hallowed : ∀ a ∈ actions, a.Allowed T)
    (hrun : sys.run actions = some sys') (c : ℕ) :
    (∀ s, sys'.requests c s ≠ [] → (sys'.step (.serve c s)).isSome = true) ∧
      (sys'.phase c ≠ .idle → ∃ a : Action α, a.client = c ∧ (sys'.step a).isSome = true) := by
  have hreads (sys : KVSystem κ α) (table : String → ℤ → α) : Reads T
    (fun _ _ _ _ => True) sys table :=
    ⟨fun _ _ _ _ _ _ _ _ => trivial, fun _ _ _ _ _ _ _ _ => trivial⟩
  obtain ⟨table, -, hinv⟩ := run_induction (fun _ _ => True) (fun _ _ _ _ _ => True)
    (fun sys table sys' table' hinv _ hmove => ⟨trivial, hinv.of_moves hmove (hreads sys table)
      fun _ _ _ _ _ _ _ => trivial⟩) hallowed (h.inv _) trivial hrun
  refine ⟨fun s => hinv.serve_isSome, fun hidle => ?_⟩
  have hok := hinv.phase c
  cases hphase : sys'.phase c with
  | idle => exact absurd hphase hidle
  | pulling call => exact hinv.pull_goesOn (hreads sys' table) hphase
  | pushing name unsent own =>
      rw [hphase] at hok
      cases unsent with
      | cons x unsent =>
          obtain ⟨m, ws⟩ := x
          refine ⟨.send c (m * sys'.kv.groupCount), rfl, ?_⟩
          simp [step, send, hphase, Nat.mul_div_cancel m hinv.served.group]
      | nil =>
          cases own with
          | nil => exact ⟨.finish c, rfl, by simp [step, finish, hphase]⟩
          | cons x own =>
              obtain ⟨hm, hfits⟩ := hok.2.2 x List.mem_cons_self
              rw [hm] at hfits
              obtain ⟨target, table', hlocal, -⟩ := hinv.served.exists_localPush hfits
              refine ⟨.own c, rfl, ?_⟩
              simp [step, KVSystem.own, hphase, hlocal, attempt]

theorem run_goesOn_fourClients : ∃ sys', (fourClients 1).run pushThenPull = some sys' ∧
    ∃ a : Action ℕ, a.client = 2 ∧ (sys'.step a).isSome = true := by
  have hrun : (fourClients 1).run pushThenPull =
    some (((fourClients 1).run pushThenPull).get rfl) := rfl
  refine ⟨_, hrun, (run_goesOn feat _ (fourClients 1) _ _ (fourClients_initial Nat.zero_lt_one) pushThenPull_allowed
    hrun 2).2 ?_⟩
  intro hidle
  cases hidle

end KVSystem

end DglAscend.Distributed
