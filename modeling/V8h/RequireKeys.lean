import V8h.RequireOnce
/-!
# RequireKeys — the name keys of `requiredFiles`

A name key is `$currentDir + "?" + filename`, or an absolute name as it stands, and is in one table with the real paths.
So `require` gives the exports of the file its name leads to as long as the names in use have keys of their own
(`required_exports`), which they have where no `?` is in any of them (`unambiguous_of_plain`).
-/
namespace V8h

/-- The exports of a file: what its last load gave. -/
def History.exportsOf (H : History) (r : JsString) : Option Value :=
  (H.loads.find? fun l => l.filename = r).bind fun l => l.result.toOption

namespace Modules

open Effect

variable [V8] {host : Host} {callee : JsString → L Value} {s s' s₂ : Modules} {name r q dir : JsString} {H : History}
  {v : Value} {result : Except Stop Value}

/-- A `require` that is made outside of every load. -/
structure Request where
  dir  : Option JsString
  name : JsString

def serve (host : Host) (fuel : Nat) (s : Modules) (request : Request) : Modules :=
  after (load host fuel request.name) { s with currentDir := request.dir }

/-- Names are required one after the other, each with a `$currentDir` of its own. -/
def session (host : Host) (fuel : Nat) (requests : List Request) : Modules :=
  requests.foldl (serve host fuel) (start none)

/-- The file is not mistaken for another one, and each load of it gave exports that are no mark. -/
structure Exporting (host : Host) (H : History) (r : JsString) : Prop extends Unambiguous host H r where
  loads : ∀ l ∈ H.loads, l.filename = r → ∃ v, l.result = .ok v ∧ v ≠ .one

/-- An entry is that of a file, or of a name that leads to some file; if it leads to `r`, it is the entry of `r`. -/
def Coherent (host : Host) (r : JsString) (s : Modules) : Prop := ∀ k v, s.requiredFiles k = some v → v.isSet = true →
  (k ∈ s.history.loading ∨ ∃ l ∈ s.history.loads, l.filename = k) ∨
  ∃ c ∈ s.history.calls, c.key = k ∧ ∃ r', resolve host c.dir c.name = some r' ∧
    (r' = r → r ∉ s.history.loading ∧ s.requiredFiles r = some v)

/-- What the table has for a file. -/
inductive Entry (r : JsString) (s : Modules) : Prop where
  | absent  (notLoading : r ∉ s.history.loading) (entry : s.requiredFiles r = none)
  | loading (loading : r ∈ s.history.loading) (entry : s.requiredFiles r = some .one)
  | loaded  (v : Value) (notLoading : r ∉ s.history.loading) (one : v ≠ .one) (entry : s.requiredFiles r = some v)
      (last : s.history.exportsOf r = some v)

/-- The calls so far that led to the file, not from within its own load, got exports of it. -/
def Answered (host : Host) (r : JsString) (H : History) : Prop :=
  ∀ c ∈ H.calls, resolve host c.dir c.name = some r → r ∉ c.loading →
    ∃ v, c.result = .ok v ∧ ∃ l ∈ H.loads, l.filename = r ∧ l.result = .ok v

structure Named (host : Host) (r : JsString) (s : Modules) : Prop where
  keys  : Coherent host r s
  entry : Entry r s
  calls : Answered host r s.history

/-- The invariant of a run with the history `H`. -/
def NamedIn (host : Host) (H : History) (r : JsString) (s : Modules) : Prop := Part H s → Named host r s

omit [V8] in
theorem mem_of_exportsOf (h : H.exportsOf r = some v) : ∃ l ∈ H.loads, l.filename = r ∧ l.result = .ok v := by
  obtain ⟨l, hl, hv⟩ := Option.bind_eq_some_iff.1 h
  have hname := List.find?_some hl
  refine ⟨l, List.mem_of_find?_eq_some hl, of_decide_eq_true hname, ?_⟩
  cases hres : l.result with
  | error e =>
    rw [hres] at hv
    cases hv
  | ok v' =>
    rw [hres] at hv
    cases hv
    rfl

omit [V8] in
theorem exportsOf_cons (loads : List Load) (l : Load) (h : s.history.loads = l :: loads) :
    s.history.exportsOf r = if l.filename = r then l.result.toOption else
      (loads.find? fun l => l.filename = r).bind fun l => l.result.toOption := by
  unfold History.exportsOf
  rw [h, List.find?_cons]
  by_cases hr : l.filename = r
  · simp only [hr, decide_true, if_true, Option.bind_some]
  · simp only [hr, decide_false, if_false]

omit [V8] in
theorem Entry.same (h : Entry r s) (hl : r ∈ s'.history.loading ↔ r ∈ s.history.loading)
    (he : s'.requiredFiles r = s.requiredFiles r) (hlast : s'.history.exportsOf r = s.history.exportsOf r) :
    Entry r s' := by
  cases h with
  | absent h1 h2 => exact .absent (fun h => h1 (hl.1 h)) (he.trans h2)
  | loading h1 h2 => exact .loading (hl.2 h1) (he.trans h2)
  | loaded v h1 h2 h3 h4 => exact .loaded v (fun h => h1 (hl.1 h)) h2 (he.trans h3) (hlast.trans h4)

omit [V8] in
theorem Entry.exports (h : Entry r s) (hnot : r ∉ s.history.loading) (hv : s.requiredFiles r = some v) :
    s.history.exportsOf r = some v := by
  cases h with
  | absent h1 h2 => cases h2.symm.trans hv
  | loading h1 => exact absurd h1 hnot
  | loaded v' h1 h2 h3 h4 =>
    cases h3.symm.trans hv
    exact h4

omit [V8] in
theorem Answered.mono {H' : History} (h : Answered host r H) (hcalls : ∀ c ∈ H'.calls, c ∈ H.calls)
    (hloads : ∀ l ∈ H.loads, l ∈ H'.loads) : Answered host r H' := by
  intro c hc hres hnot
  obtain ⟨v, hok, l, hl, hrest⟩ := h c (hcalls c hc) hres hnot
  exact ⟨v, hok, l, hloads l hl, hrest⟩

/-! ## Names without a question mark -/

/-- No `?` is in a directory, a name or the path of a loaded file. -/
structure Plain (host : Host) (H : History) : Prop where
  calls : ∀ c ∈ H.calls, 63 ∉ c.name ∧ ∃ d, c.dir = some d ∧ 63 ∉ d
  loads : ∀ l ∈ H.loads, 63 ∉ l.filename ∧ host.realpath l.filename = some l.filename

omit [V8] in
/-- What stands before the first `?`, and behind it. -/
theorem key_inj {d d' f f' : JsString} (h : 63 ∉ d) (h' : 63 ∉ d') (he : d ++ js "?" ++ f = d' ++ js "?" ++ f') :
    d = d' ∧ f = f' := by
  have hcut : ∀ {x y : JsString}, 63 ∉ x → (x ++ js "?" ++ y).takeWhile (· ≠ 63) = x := by
    intro x y hx
    have hall : ∀ u ∈ x, decide (u ≠ 63) = true := fun u hu => decide_eq_true fun h => hx (h ▸ hu)
    rw [List.append_assoc, List.takeWhile_append_of_pos hall]
    exact List.append_nil x
  have hd : d = d' := (hcut h).symm.trans ((congrArg _ he).trans (hcut h'))
  subst hd
  exact ⟨rfl, List.append_cancel_left he⟩

omit [V8] in
/-- The key of an absolute name is the name, and any other key has a `?`. -/
theorem key_cases (c : Call) : (c.name.head? = some 47 ∧ c.key = c.name) ∨
    c.name.head? ≠ some 47 ∧ ∀ d, c.dir = some d → c.key = d ++ js "?" ++ c.name := by
  by_cases h : c.name.head? = some 47
  · exact .inl ⟨h, if_pos h⟩
  · refine .inr ⟨h, fun d hd => ?_⟩
    rw [Call.key, originalFileName, if_neg h, hd]
    rfl

omit [V8] in
theorem resolve_absolute {dir : Option JsString} (h : name.head? = some 47) :
    resolve host dir name = host.realpath name := by
  rw [resolve, target, if_pos h]
  rfl

omit [V8] in
/-- **A key without a `?` is an absolute name.** -/
theorem Plain.absolute {c : Call} (h : Plain host H) (hc : c ∈ H.calls) (hkey : 63 ∉ c.key) :
    c.key = c.name ∧ resolve host c.dir c.name = host.realpath c.name := by
  obtain ⟨-, d, hd, -⟩ := h.calls c hc
  rcases key_cases c with ⟨habs, hname⟩ | ⟨-, hrel⟩
  · exact ⟨hname, resolve_absolute habs⟩
  · rw [hrel d hd] at hkey
    exact absurd (List.mem_append_left _ (List.mem_append_right _ List.mem_cons_self)) hkey

omit [V8] in
/-- **Where no `?` is in any name, each name has a key of its own.** -/
theorem unambiguous_of_plain (h : Plain host H) (hr : 63 ∉ r) (hreal : host.realpath r = some r) :
    Unambiguous host H r where
  names c hc c' hc' hkey hres r' hr' := by
    obtain ⟨hname, d, hd, hplain⟩ := h.calls c hc
    obtain ⟨-, d', hd', hplain'⟩ := h.calls c' hc'
    rcases key_cases c with ⟨habs, habsolute⟩ | ⟨hnot, hrel⟩
    · have hkey' : 63 ∉ c'.key := by
        rw [← hkey, habsolute]
        exact hname
      obtain ⟨hname', hres'⟩ := h.absolute hc' hkey'
      rw [resolve_absolute habs, ← habsolute, hkey, hname'] at hres
      exact Option.some.inj (hr'.symm.trans (hres'.trans hres))
    · have hkey' : c'.key = d' ++ js "?" ++ c'.name := by
        rcases key_cases c' with ⟨-, habs'⟩ | ⟨-, hrel'⟩
        · have hmem : 63 ∈ c'.name := by
            rw [← habs', ← hkey, hrel d hd]
            exact List.mem_append_left _ (List.mem_append_right _ List.mem_cons_self)
          exact absurd hmem (h.calls c' hc').1
        · exact hrel' d' hd'
      rw [hrel d hd, hkey'] at hkey
      obtain ⟨hdir, hsame⟩ := key_inj hplain hplain' hkey
      rw [hd', ← hdir, ← hsame, ← hd] at hr'
      exact Option.some.inj (hr'.symm.trans hres)
  files c hc hres l hl hkey := by
    obtain ⟨hplain, hreal'⟩ := h.loads l hl
    obtain ⟨hname, hres'⟩ := h.absolute hc (hkey ▸ hplain)
    rw [hres', ← hname, hkey, hreal'] at hres
    exact Option.some.inj hres
  path c hc hkey r' hr' := by
    obtain ⟨hname, hres⟩ := h.absolute hc (hkey ▸ hr)
    rw [hres, ← hname, hkey, hreal] at hr'
    exact (Option.some.inj hr').symm

/-! ## What a load does -/

omit [V8] in
theorem NamedIn.enter (hk : ¬ Known (s.requiredFiles q)) (h : NamedIn host H r s) :
    NamedIn host H r (s.enter q dir) := by
  intro hpart
  obtain ⟨hkeys, hentry, hcalls⟩ :=
    h ⟨hpart.loads, hpart.calls, fun k hin => hpart.loading k (List.mem_cons_of_mem q hin)⟩
  refine ⟨fun k v hv hset => ?_, ?_, hcalls⟩
  · by_cases he : k = q
    · exact .inl (.inl (he ▸ List.mem_cons_self ..))
    · have hv : s.requiredFiles k = some v := (Function.update_of_ne he ..).symm.trans hv
      rcases hkeys k v hv hset with (hin | hload) | ⟨c, hc, hkey, r', hres, hr⟩
      · exact .inl (.inl (List.mem_cons_of_mem q hin))
      · exact .inl (.inr hload)
      · refine .inr ⟨c, hc, hkey, r', hres, fun heq => ?_⟩
        obtain ⟨hnot, hentry⟩ := hr heq
        have hne : r ≠ q := fun he => hk (he ▸ known_iff.2 ⟨v, hentry, hset⟩)
        exact ⟨fun hin => hnot ((List.mem_cons.1 hin).resolve_left hne), (Function.update_of_ne hne ..).trans hentry⟩
  · by_cases he : r = q
    · subst he
      exact .loading (List.mem_cons_self ..) (Function.update_self ..)
    · refine hentry.same ?_ (enter_other s he dir).1 rfl
      exact ⟨fun hin => (List.mem_cons.1 hin).resolve_left he, fun hin => List.mem_cons_of_mem q hin⟩

omit [V8] in
/-- **The load of a file ends**, in `s'`, and the state after it is `s₂`. -/
theorem NamedIn.ended (hexports : Exporting host H r) (hk : ¬ Known (s.requiredFiles q)) (hs : NamedIn host H r s)
    (hgrow : Grows (s.enter q dir) s') (h : NamedIn host H r s')
    (hentry : ∀ k, k ≠ q → s₂.requiredFiles k = s'.requiredFiles k)
    (hresult : ∀ v, result = .ok v → s₂.requiredFiles q = some v)
    (hcalls : s₂.history.calls = s'.history.calls)
    (hloads : s₂.history.loads = ⟨q, s.history.loading, result⟩ :: s'.history.loads)
    (hloading : s₂.history.loading = s.history.loading) :
    NamedIn host H r s₂ := by
  intro hpart
  have hin : ⟨q, s.history.loading, result⟩ ∈ s₂.history.loads := hloads ▸ List.mem_cons_self ..
  have hloading' : s'.history.loading = q :: s.history.loading := hgrow.loading
  have hsub : ∀ l ∈ s'.history.loads, l ∈ s₂.history.loads := fun l h' => hloads ▸ List.mem_cons_of_mem _ h'
  obtain ⟨hpart', hpart₀⟩ := hpart.ended hgrow hcalls hloads hloading
  obtain ⟨hkeys, hentry', hanswered⟩ := h hpart'
  refine ⟨fun k v hv hset => ?_, ?_, hanswered.mono (fun c hc => hcalls ▸ hc) hsub⟩
  · by_cases he : k = q
    · exact .inl (.inr ⟨_, hin, he.symm⟩)
    · rcases hkeys k v (hentry k he ▸ hv) hset with (hin' | ⟨l, hl, hname⟩) | ⟨c, hc, hkey, r', hres, hr⟩
      · exact .inl (.inl (hloading ▸ (List.mem_cons.1 (hloading' ▸ hin')).resolve_left he))
      · exact .inl (.inr ⟨l, hsub l hl, hname⟩)
      · refine .inr ⟨c, hcalls ▸ hc, hkey, r', hres, fun heq => ?_⟩
        obtain ⟨hnot, hv'⟩ := hr heq
        rw [hloading', List.mem_cons, not_or] at hnot
        exact ⟨hloading ▸ hnot.2, (hentry r hnot.1).trans hv'⟩
  · by_cases he : r = q
    · subst he
      obtain ⟨v, hok, hone⟩ := hexports.loads _ (hpart.loads _ hin) rfl
      have hok : result = .ok v := hok
      subst hok
      have hnot : r ∉ s.history.loading := by
        cases (hs hpart₀).entry with
        | absent h1 => exact h1
        | loading h1 h2 => exact absurd (known_iff.2 ⟨_, h2, rfl⟩) hk
        | loaded v h1 => exact h1
      have hlast := exportsOf_cons (r := r) _ _ hloads
      rw [if_pos rfl] at hlast
      exact .loaded v (hloading ▸ hnot) hone (hresult v rfl) hlast
    · have hlast := exportsOf_cons (r := r) _ _ hloads
      rw [if_neg (Ne.symm he)] at hlast
      refine hentry'.same ?_ (hentry r he) hlast
      rw [hloading, hloading', List.mem_cons]
      exact ⟨.inr, fun h' => h'.resolve_left he⟩

/-! ## What a call does -/

omit [V8] in
/-- **What the table has for a name is what it has for the file the name leads to.** -/
theorem Coherent.hit (h : Coherent host r s) (hnames : Unambiguous host H r) (hpart : Part H s)
    (hc : s.record name result ∈ H.calls) (hres : resolve host s.currentDir name = some r)
    (hv : s.requiredFiles (originalFileName s.currentDir name) = some v) (hset : v.isSet = true) :
    s.requiredFiles r = some v := by
  rcases h _ v hv hset with hfile | ⟨c, hin, hkey, r', hr', hentry⟩
  · have hload : ∃ l ∈ H.loads, l.filename = originalFileName s.currentDir name :=
      hfile.elim (hpart.loading _) fun ⟨l, hin, he⟩ => ⟨l, hpart.loads _ hin, he⟩
    obtain ⟨l, hin, hl⟩ := hload
    have he : originalFileName s.currentDir name = r := hl.symm.trans (hnames.files _ hc hres l hin hl.symm)
    exact he ▸ hv
  · have he : r' = r := hnames.names _ hc c (hpart.calls c hin) hkey.symm hres r' hr'
    exact (hentry he).2

/-- **A file that can be loaded is not refused.** -/
theorem Entry.not_refused {e : Stop} (h : Entry r s) (hexports : Exporting host H r) (hnot : r ∉ s.history.loading)
    (hk : ¬ Known (s.requiredFiles (originalFileName s.currentDir name)))
    (hres : resolve host s.currentDir name = some r) (hloads : ∀ l ∈ s'.history.loads, l ∈ H.loads) :
    require host callee name s ≠ .error e s' := by
  intro hr
  have hreload : ¬ ¬ Known (s.requiredFiles r) := by
    intro hnone
    obtain ⟨l, hin, hl, herr⟩ := require_error hr hk hres hnone
    obtain ⟨v, hok, -⟩ := hexports.loads l (hloads l hin) hl
    cases herr.symm.trans hok
  cases h with
  | absent h1 h2 =>
    apply hreload
    rw [h2]
    decide
  | loading h1 => exact hnot h1
  | loaded v h1 h2 h3 h4 =>
    cases hset : v.isSet with
    | true =>
      obtain ⟨s₁, hok⟩ : ∃ s₁, require host callee name s = .ok v s₁ := require_known hk hres h3 hset h2
      cases hok.symm.trans hr
    | false =>
      apply hreload
      rw [h3, known_iff]
      rintro ⟨v', he, hset'⟩
      cases he
      cases hset.symm.trans hset'

theorem Entry.notLoading_of_ok (h : Entry r s) (hk : ¬ Known (s.requiredFiles (originalFileName s.currentDir name)))
    (hres : resolve host s.currentDir name = some r) (hr : require host callee name s = .ok v s') :
    r ∉ s.history.loading := by
  cases h with
  | absent h1 => exact h1
  | loading h1 h2 =>
    have herror : require host callee name s = .error (loopRequire r) s := require_one hk hres h2
    cases herror.symm.trans hr
  | loaded v' h1 => exact h1

omit [V8] in
theorem Named.called {s₀ : Modules} (h : Named host r s)
    (hresult : resolve host s₀.currentDir name = some r → r ∉ s₀.history.loading →
      ∃ v, result = .ok v ∧ s.history.exportsOf r = some v) :
    Named host r (called s₀ name result s) := by
  obtain ⟨hkeys, hentry, hanswered⟩ := h
  refine ⟨fun k v hv hset => ?_, hentry.same Iff.rfl rfl rfl, fun c hc hres hnot => ?_⟩
  · refine (hkeys k v hv hset).imp_right ?_
    rintro ⟨c, hc, hrest⟩
    exact ⟨c, List.mem_cons_of_mem _ hc, hrest⟩
  · rcases List.mem_cons.1 hc with rfl | hc
    · obtain ⟨v, hok, hlast⟩ := hresult hres hnot
      exact ⟨v, hok, mem_of_exportsOf hlast⟩
    · exact hanswered c hc hres hnot

omit [V8] in
/-- **The key of a call is set to what the table has for the file** it led to, which is the file with the key if there
is one. -/
theorem Named.cache {c : Call} (h : Named host r s) (hc : c ∈ s.history.calls)
    (hres : resolve host c.dir c.name = some q)
    (hv : q = r → r ∉ s.history.loading ∧ s.requiredFiles r = some v) (hpath : c.key = r → q = r) :
    Named host r (s.cache c.key v) := by
  obtain ⟨hkeys, hentry, hanswered⟩ := h
  have hall : (s.cache c.key v).requiredFiles r = s.requiredFiles r := by
    by_cases hr : r = c.key
    · have hself : (s.cache c.key v).requiredFiles r = some v := by
        rw [hr]
        exact Function.update_self ..
      exact hself.trans (hv (hpath hr.symm)).2.symm
    · exact Function.update_of_ne hr ..
  refine ⟨fun k v' hv' hset => ?_, hentry.same Iff.rfl hall rfl, hanswered⟩
  by_cases he : k = c.key
  · have hvv : v = v' := by
      subst he
      exact Option.some.inj ((Function.update_self (f := s.requiredFiles) ..).symm.trans hv')
    subst hvv
    exact .inr ⟨c, hc, he.symm, q, hres, fun hq => ⟨(hv hq).1, hall.trans (hv hq).2⟩⟩
  · have hv' : s.requiredFiles k = some v' := (Function.update_of_ne he ..).symm.trans hv'
    refine (hkeys k v' hv' hset).imp_right ?_
    rintro ⟨c', hc', hkey, r', hr', hother⟩
    exact ⟨c', hc', hkey, r', hr', fun heq => ⟨(hother heq).1, hall.trans (hother heq).2⟩⟩

theorem namedIn_closed (hexports : Exporting host H r) : Closed host (NamedIn host H r) where
  other {s s'} h h' hs hpart := by
    obtain ⟨hkeys, hentry, hanswered⟩ := hs ⟨h' ▸ hpart.loads, h' ▸ hpart.calls, h' ▸ hpart.loading⟩
    refine ⟨?_, hentry.same (by rw [h']) (by rw [h]) (by rw [h']), h' ▸ hanswered⟩
    intro k v hv
    rw [h] at hv
    rw [h, h']
    exact hkeys k v hv
  enter hk hs := hs.enter hk
  loaded {s s' q dir v} hk hs hgrow hs' := by
    refine hs.ended hexports hk hgrow hs' (fun k he => Function.update_of_ne he ..) ?_ rfl rfl rfl
    intro v' he
    cases he
    exact Function.update_self ..
  threw {s s' q dir e} hk hs hgrow hs' :=
    have hno : ∀ v, Except.error e = Except.ok v → (s.leave q (.error e) s').requiredFiles q = some v :=
      fun _ he => nomatch he
    hs.ended hexports hk hgrow hs' (fun _ _ => rfl) hno rfl rfl rfl
  failed {s q e} hk hs := by
    have henter : NamedIn host H r (s.enter q []) := hs.enter hk
    have hno : ∀ v, Except.error e = Except.ok v → (loaded s q (.error e) (s.mark q)).requiredFiles q = some v :=
      fun _ he => nomatch he
    exact hs.ended hexports hk (.refl _) henter (fun _ _ => rfl) hno rfl rfl rfl
  hit {s name v} hv hset hs hpart := by
    have hc : s.record name (.ok v) ∈ H.calls := hpart.calls _ (List.mem_cons_self ..)
    have hpart' : Part H s := hpart.before (List.suffix_refl _) (List.suffix_cons ..) fun _ h => h
    refine (hs hpart').called fun hres hnot => ⟨v, rfl, ?_⟩
    exact (hs hpart').entry.exports hnot ((hs hpart').keys.hit hexports.toUnambiguous hpart' hc hres hv hset)
  refused {s s' name e callee} hk hs hr hgrow hs' hpart := by
    have hpart' : Part H s' := hpart.before (List.suffix_refl _) (List.suffix_cons ..) fun _ h => h
    have hpart₀ : Part H s := hpart'.before hgrow.loads hgrow.calls fun _ h => hgrow.loading ▸ h
    refine (hs' hpart').called fun hres hnot => ?_
    exact absurd hr ((hs hpart₀).entry.not_refused hexports hnot hk hres hpart'.loads)
  returned {s s' name q v callee} hk hs hr hres hgrow hv hs' hpart := by
    have hc : s.record name (.ok v) ∈ H.calls := hpart.calls _ (List.mem_cons_self ..)
    have hpart' : Part H s' := hpart.before (List.suffix_refl _) (List.suffix_cons ..) fun _ h => h
    have hpart₀ : Part H s := hpart'.before hgrow.loads hgrow.calls fun _ h => hgrow.loading ▸ h
    have hentry : q = r → r ∉ s'.history.loading ∧ s'.requiredFiles r = some v := by
      rintro rfl
      refine ⟨?_, hv⟩
      rw [hgrow.loading]
      exact (hs hpart₀).entry.notLoading_of_ok hk hres hr
    have hcalled : Named host r (called s name (.ok v) s') := by
      refine (hs' hpart').called fun hres' _ => ⟨v, rfl, ?_⟩
      obtain ⟨hnot, hv'⟩ := hentry (Option.some.inj (hres.symm.trans hres'))
      exact (hs' hpart').entry.exports hnot hv'
    have hpath : (s.record name (.ok v)).key = r → q = r := fun hkey => hexports.path _ hc hkey q hres
    exact hcalled.cache (List.mem_cons_self ..) hres hentry hpath

/-! ## Sessions -/

theorem serve_grows (host : Host) (fuel : Nat) (s : Modules) (request : Request) :
    Grows s (serve host fuel s request) := by
  have hdir : Grows s { s with currentDir := request.dir } := .of_eq rfl rfl
  exact hdir.trans ((load_grows host fuel request.name).after _)

theorem session_loading (host : Host) (fuel : Nat) (requests : List Request) :
    (session host fuel requests).history.loading = [] := by
  induction requests using List.reverseRecOn with
  | nil => rfl
  | append_singleton requests request ih =>
    rw [session, List.foldl_concat]
    exact (serve_grows host fuel _ request).loading.trans ih

theorem Closed.serve {P : Modules → Prop} (h : Closed host P) (hs : P s) (fuel : Nat) (request : Request) :
    P (serve host fuel s request) := by
  have hdir : P { s with currentDir := request.dir } := h.other (s := s) rfl rfl hs
  exact (h.load fuel request.name).after hdir

/-- **A session keeps what `require` keeps.** -/
theorem Closed.session {P : Modules → Prop} (h : Closed host P) (hstart : P (start none)) (fuel : Nat)
    (requests : List Request) : P (session host fuel requests) := by
  induction requests using List.reverseRecOn with
  | nil => exact hstart
  | append_singleton requests request ih =>
    rw [Modules.session, List.foldl_concat]
    exact h.serve ih fuel request

theorem require_entry (hk : ¬ Known (s.requiredFiles (originalFileName s.currentDir name)))
    (hres : resolve host s.currentDir name = some r) (hr : require host callee name s = .ok v s') :
    s'.requiredFiles r = some v := by
  obtain ⟨path, ht, hp⟩ := resolve_eq_some hres
  rw [require_run, if_neg hk] at hr
  simp only [ht] at hr
  cases habs : requireAbsolute host callee path s with
  | error e s₁ =>
    simp only [habs] at hr
    cases hr
  | ok exports s₁ =>
    simp only [habs] at hr
    cases hr
    obtain ⟨r', hp', hv⟩ := requireAbsolute_ok habs
    cases hp.symm.trans hp'
    by_cases hkey : r = originalFileName s.currentDir name
    · rw [hkey]
      exact Function.update_self ..
    · exact (Function.update_of_ne hkey ..).trans hv

/-- **A call that leads to a file gives its exports.** -/
theorem call_exports (hexports : Exporting host H r) (hnamed : Named host r s) (hpart : Part H s)
    (hpart' : Part H (after (call host callee name) s)) (hend : Named host r (after (call host callee name) s))
    (hnot : r ∉ s.history.loading) (hnot' : r ∉ (after (call host callee name) s).history.loading)
    (hres : resolve host s.currentDir name = some r) :
    ∃ v, answer (call host callee name) s = .ok v ∧
      (after (call host callee name) s).history.exportsOf r = some v := by
  cases hr : require host callee name s with
  | error e s₁ =>
    have hafter : after (call host callee name) s = called s name (.error e) s₁ := by
      rw [after, call, hr]
    have hk : ¬ Known (s.requiredFiles (originalFileName s.currentDir name)) := by
      intro hk
      rw [require_run, if_pos hk] at hr
      cases hr
    rw [hafter] at hpart'
    exact absurd hr (hnamed.entry.not_refused hexports hnot hk hres hpart'.loads)
  | ok v s₁ =>
    have hafter : after (call host callee name) s = called s name (.ok v) s₁ := by
      rw [after, call, hr]
    refine ⟨v, by rw [answer, call, hr], hend.entry.exports hnot' ?_⟩
    rw [hafter] at hpart' ⊢
    by_cases hk : Known (s.requiredFiles (originalFileName s.currentDir name))
    · obtain ⟨v', hv', hset⟩ := known_iff.1 hk
      rw [require_run, if_pos hk, hv'] at hr
      cases hr
      exact hnamed.keys.hit hexports.toUnambiguous hpart (hpart'.calls _ (List.mem_cons_self ..)) hres hv' hset
    · have hentry : s₁.requiredFiles r = some v := require_entry hk hres hr
      exact hentry

/-- The request gives the exports of a file. -/
def Exports (host : Host) (fuel : Nat) (s : Modules) (request : Request) (r : JsString) : Prop :=
  ∃ v, answer (load host fuel request.name) { s with currentDir := request.dir } = .ok v ∧
    (serve host fuel s request).history.exportsOf r = some v

/-- **A name that leads to a file gives its exports**, whatever the table has for the name, as long as the file is not
mistaken for another one: for every file system, every session before, every directory and every depth of loads. -/
theorem required_exports (host : Host) (fuel : Nat) (requests : List Request) (request : Request) (r : JsString)
    (hres : resolve host request.dir request.name = some r)
    (hexports : Exporting host (serve host (fuel + 1) (session host (fuel + 1) requests) request).history r) :
    Exports host (fuel + 1) (session host (fuel + 1) requests) request r ∧
      Answered host r (serve host (fuel + 1) (session host (fuel + 1) requests) request).history := by
  have hloading := session_loading host (fuel + 1) requests
  have hclosed := namedIn_closed hexports
  have hsession := hclosed.session
    (fun _ => ⟨(fun _ _ h => nomatch h), .absent (fun h => nomatch h) rfl, (fun _ h => nomatch h)⟩) (fuel + 1) requests
  generalize session host (fuel + 1) requests = s at hexports hloading hclosed hsession ⊢
  have hgrow := serve_grows host (fuel + 1) s request
  have hend := hclosed.serve hsession (fuel + 1) request
  have hempty := hgrow.loading.trans hloading
  have hpart : Part (serve host (fuel + 1) s request).history (serve host (fuel + 1) s request) :=
    ⟨fun _ h => h, fun _ h => h, fun k h => nomatch (hempty ▸ h : k ∈ [])⟩
  have hpart₀ : Part (serve host (fuel + 1) s request).history s :=
    hpart.before hgrow.loads hgrow.calls fun k h => nomatch (hloading ▸ h : k ∈ [])
  refine ⟨?_, (hend hpart).calls⟩
  have hnamed := hsession hpart₀
  exact call_exports (s := { s with currentDir := request.dir }) hexports
    ⟨hnamed.keys, hnamed.entry.same Iff.rfl rfl rfl, hnamed.calls⟩ ⟨hpart₀.loads, hpart₀.calls, hpart₀.loading⟩
    hpart (hend hpart) (fun h => nomatch (hloading ▸ h : r ∈ [])) (fun h => nomatch (hempty ▸ h : r ∈ [])) hres

/-- `b.js` is required, which requires `a.js`. -/
def sharedSession : Modules := @session ascii (disk shared) 9 [⟨some (js "/"), js "./b.js"⟩]

omit [V8] in
theorem sharedSession_exporting : Exporting (disk shared)
    (@serve ascii (disk shared) 9 sharedSession ⟨some (js "/"), js "./a.js"⟩).history (js "/a.js") := by
  have hcalls : ∀ c ∈ (@serve ascii (disk shared) 9 sharedSession ⟨some (js "/"), js "./a.js"⟩).history.calls,
      63 ∉ c.name ∧ c.dir = some (js "/") := by decide +kernel
  have hloads : ∀ l ∈ (@serve ascii (disk shared) 9 sharedSession ⟨some (js "/"), js "./a.js"⟩).history.loads,
      63 ∉ l.filename ∧ (disk shared).realpath l.filename = some l.filename := by decide +kernel
  have hplain := unambiguous_of_plain ⟨fun c hc => ⟨(hcalls c hc).1, js "/", (hcalls c hc).2, by decide⟩, hloads⟩
    (r := js "/a.js") (by decide) (by decide +kernel)
  have hresults : ∀ l ∈ (@serve ascii (disk shared) 9 sharedSession ⟨some (js "/"), js "./a.js"⟩).history.loads,
      l.filename = js "/a.js" → l.result = .ok (.string (js "a")) := by decide +kernel
  exact ⟨hplain, fun l hl hname => ⟨_, hresults l hl hname, by decide⟩⟩

omit [V8] in
/-- The name has an entry already. -/
theorem required_exports_again :
    @Exports ascii (disk shared) 9 sharedSession ⟨some (js "/"), js "./a.js"⟩ (js "/a.js") ∧
    Answered (disk shared) (js "/a.js")
      (@serve ascii (disk shared) 9 sharedSession ⟨some (js "/"), js "./a.js"⟩).history :=
  @required_exports ascii (disk shared) 8 [⟨some (js "/"), js "./b.js"⟩] ⟨some (js "/"), js "./a.js"⟩ (js "/a.js")
    (by decide +kernel) sharedSession_exporting

/-- A file whose path is the name key of another file. -/
def keyed : Host := { disk [(js "/lib?b.js", .done (.string (js "other"))), (js "/b.js", .done (.string (js "b")))] with
  includePath := [[]] }

def keyedSession : Modules := @session ascii keyed 9 [⟨some (js "/lib"), js "/lib?b.js"⟩]

/-- A file whose exports are 1. -/
def one : Host := disk [(js "/a.js", .done .one)]

def oneSession : Modules := @session ascii one 9 [⟨some (js "/"), js "./a.js"⟩]

omit [V8] in
/-- **The exports of `/lib?b.js` are given for `b.js` in `/lib`**; and exports that are 1 are taken for a mark. -/
theorem name_key_shared :
    ((∀ l ∈ keyedSession.history.loads, l.result = .ok (.string (js "other"))) ∧
      resolve keyed (some (js "/lib")) (js "b.js") = some (js "/b.js") ∧
      answer (@load ascii keyed 9 (js "b.js")) { keyedSession with currentDir := some (js "/lib") } =
        .ok (.string (js "other")) ∧
      answer (@load ascii keyed 9 (js "b.js")) (start (some (js "/lib"))) = .ok (.string (js "b")) ∧
      ¬ @Exports ascii keyed 9 keyedSession ⟨some (js "/lib"), js "b.js"⟩ (js "/b.js")) ∧
    (∀ l ∈ oneSession.history.loads, l.result = .ok .one) ∧
      resolve one (some (js "/")) (js "/b/../a.js") = some (js "/a.js") ∧
      answer (@load ascii one 9 (js "/b/../a.js")) { oneSession with currentDir := some (js "/") } =
        .error (loopRequire (js "/a.js")) := by
  refine ⟨⟨by decide +kernel, by decide +kernel, by decide +kernel, by decide +kernel, ?_⟩, by decide +kernel,
    by decide +kernel, by decide +kernel⟩
  rintro ⟨v, -, hlast⟩
  have hnone : (@serve ascii keyed 9 keyedSession ⟨some (js "/lib"), js "b.js"⟩).history.exportsOf (js "/b.js") =
      none := by decide +kernel
  cases hnone.symm.trans hlast

end Modules
end V8h
