import Tablespace.File.Access

/-!
# Runs of computations

A computation on a file is followed step by step. It does the same through
every handle, so its laws leave the counts of the handle open.
-/

namespace Tablespace

/-- The state in which a computation ends, whether it fails or not. -/
def finalState {ε σ α : Type} : EStateM.Result ε σ α → σ
  | .ok _ s => s
  | .error _ s => s

section
variable {ε σ α β : Type} {x : EStateM ε σ α} {k : α → EStateM ε σ β} {s s' : σ} {a : α} {e : ε}

theorem run_bind (h : x s = .ok a s') : (x >>= k) s = k a s' := by
  simp only [bind, EStateM.bind, h]

theorem run_get (s : σ) : (get : EStateM ε σ σ) s = .ok s s := rfl

theorem run_get_bind (k : σ → EStateM ε σ β) (s : σ) : (get >>= k) s = k s s := rfl

theorem run_bind_error (h : x s = .error e s') : (x >>= k) s = .error e s' := by
  simp only [bind, EStateM.bind, h]

theorem run_bind_eq_ok {b : β} (h : (x >>= k) s = .ok b s') :
    ∃ a s₁, x s = .ok a s₁ ∧ k a s₁ = .ok b s' := by
  cases hx : x s with
  | ok a s₁ => exact ⟨a, s₁, rfl, (run_bind hx).symm.trans h⟩
  | error e s₁ => rw [run_bind_error hx] at h; cases h

end

theorem mapM_eq_ok {ε α β : Type} {g : α → Except ε β} : ∀ {xs : List α} {ys : List β},
    xs.map g = ys.map .ok → xs.mapM g = .ok ys
  | [], [], _ => rfl
  | [], _ :: _, h => by cases h
  | _ :: _, [], h => by cases h
  | x :: xs, y :: ys, h => by
    rw [List.map_cons, List.map_cons, List.cons.injEq] at h
    rw [List.mapM_cons, h.1, mapM_eq_ok h.2]
    rfl

theorem exists_mapM_iff {ε α β : Type} {g : α → Except ε β} {xs : List α} :
    (∃ ys, xs.mapM g = .ok ys) ↔ ∀ x ∈ xs, ∃ y, g x = .ok y := by
  induction xs with
  | nil => exact ⟨fun _ => by simp, fun _ => ⟨[], rfl⟩⟩
  | cons x xs ih =>
    rw [List.mapM_cons, List.forall_mem_cons, ← ih]
    cases g x with
    | error e => simp [bind, Except.bind]
    | ok y => cases xs.mapM g <;> simp [bind, Except.bind, pure, Except.pure]

theorem exists_of_mapM_eq_error {ε α β : Type} {g : α → Except ε β} {e : ε} : ∀ {xs : List α},
    xs.mapM g = .error e → ∃ x ∈ xs, g x = .error e
  | [], h => by cases h
  | x :: xs, h => by
    rw [List.mapM_cons] at h
    cases hx : g x with
    | error e' =>
      rw [hx] at h
      cases h
      exact ⟨x, List.mem_cons_self .., hx⟩
    | ok y =>
      cases hxs : xs.mapM g with
      | error e' =>
        rw [hx, hxs] at h
        cases h
        obtain ⟨x', hmem, he⟩ := exists_of_mapM_eq_error hxs
        exact ⟨x', List.mem_cons_of_mem _ hmem, he⟩
      | ok ys => rw [hx, hxs] at h; cases h

theorem mapError_ok {ε ε' α : Type} (g : ε → ε') (a : α) : (Except.ok a).mapError g = .ok a := rfl

theorem mapError_error {ε ε' α : Type} (g : ε → ε') (e : ε) :
    (Except.error e : Except ε α).mapError g = .error (g e) := rfl

theorem mapError_eq_ok_iff {ε ε' α : Type} {x : Except ε α} {g : ε → ε'} {a : α} :
    x.mapError g = .ok a ↔ x = .ok a := by
  cases x <;> simp [mapError_ok, mapError_error]

theorem bind_eq_ok_iff {ε α β : Type} {x : Except ε α} {k : α → Except ε β} {b : β} :
    (x >>= k) = .ok b ↔ ∃ a, x = .ok a ∧ k a = .ok b := by
  cases x <;> simp [bind, Except.bind]

/-! ## Iterators -/

/-- The iterator yields the items of a list without a failure, and from then on nothing. -/
def Emits {ε σ α : Type} (next : σ → Option (Except ε α) × σ) : List α → σ → Prop
  | [], s => ∃ s', next s = (none, s') ∧ next s' = (none, s')
  | x :: xs, s => ∃ s', next s = (some (.ok x), s') ∧ Emits next xs s'

/-- An iterator whose steps follow what it sees emits it. -/
theorem emits_of_step {ε σ α : Type} {next : σ → Option (Except ε α) × σ} {R : List α → σ → Prop}
    (hend : ∀ s, R [] s → ∃ s', next s = (none, s') ∧ next s' = (none, s'))
    (hstep : ∀ x xs s, R (x :: xs) s → ∃ s', next s = (some (.ok x), s') ∧ R xs s') :
    ∀ {xs : List α} {s : σ}, R xs s → Emits next xs s
  | [], s, h => hend s h
  | x :: xs, s, h => by
    obtain ⟨s', hnext, hrest⟩ := hstep x xs s h
    exact ⟨s', hnext, emits_of_step hend hstep hrest⟩

namespace Access

section
variable {ε ε' α β : Type} {f f₁ f₂ : PagedFile} {a : α} {b : β} {e : ε}

/-- The computation succeeds on `f` with `a` and leaves `f₁`, through every handle. -/
def Does (work : EStateM ε Access α) (f : PagedFile) (a : α) (f₁ : PagedFile) : Prop :=
  ∀ c, ∃ c', work ⟨some f, c⟩ = .ok a ⟨some f₁, c'⟩

/-- The computation fails on `f` with `e` and leaves `f₁`, through every handle. -/
def Fails (work : EStateM ε Access α) (f : PagedFile) (e : ε) (f₁ : PagedFile) : Prop :=
  ∀ c, ∃ c', work ⟨some f, c⟩ = .error e ⟨some f₁, c'⟩

/-- The computation fails and leaves the file as it was. -/
abbrev Refuses (work : EStateM ε Access α) (f : PagedFile) (e : ε) : Prop := Fails work f e f

theorem Does.pure (f : PagedFile) (a : α) : Does (pure a : EStateM ε Access α) f a f :=
  fun c => ⟨c, rfl⟩

theorem Does.bind {x : EStateM ε Access α} {k : α → EStateM ε Access β} (hx : Does x f a f₁)
    (hk : Does (k a) f₁ b f₂) : Does (x >>= k) f b f₂ := by
  intro c
  obtain ⟨c₁, h₁⟩ := hx c
  obtain ⟨c₂, h₂⟩ := hk c₁
  exact ⟨c₂, by rw [run_bind h₁, h₂]⟩

theorem Does.adaptExcept {work : EStateM ε Access α} (g : ε → ε') (h : Does work f a f₁) :
    Does (EStateM.adaptExcept g work) f a f₁ := by
  intro c
  obtain ⟨c', hc⟩ := h c
  exact ⟨c', by simp only [EStateM.adaptExcept, hc]⟩

theorem does_liftExcept {x : Except ε α} (h : x = .ok a) :
    Does (liftM x : EStateM ε Access α) f a f := by
  subst h
  exact Does.pure f a

theorem Fails.throw (f : PagedFile) (e : ε) : Refuses (throw e : EStateM ε Access α) f e :=
  fun c => ⟨c, rfl⟩

theorem Fails.bind {x : EStateM ε Access α} {k : α → EStateM ε Access β} (hx : Fails x f e f₁) :
    Fails (x >>= k) f e f₁ := by
  intro c
  obtain ⟨c', h⟩ := hx c
  exact ⟨c', run_bind_error h⟩

theorem Does.bind_fails {x : EStateM ε Access α} {k : α → EStateM ε Access β} (hx : Does x f a f₁)
    (hk : Fails (k a) f₁ e f₂) : Fails (x >>= k) f e f₂ := by
  intro c
  obtain ⟨c₁, h₁⟩ := hx c
  obtain ⟨c₂, h₂⟩ := hk c₁
  exact ⟨c₂, by rw [run_bind h₁, h₂]⟩

theorem refuses_liftExcept {x : Except ε α} (h : x = .error e) :
    Refuses (liftM x : EStateM ε Access α) f e := by
  subst h
  exact Fails.throw f e

end

/-! ## Pages -/

variable {f : PagedFile} {n : PageNum} {p : Page}

theorem does_pageCount (f : PagedFile) : Does pageCount f (UInt32.ofNat f.pages.length) f :=
  fun c => ⟨c, run_pageCount⟩

theorem run_missingPage (h : f.pages[n.toNat]? = none) (c : Counters) : existingPage n ⟨some f, c⟩
    = .error (.pageNotFound n (UInt32.ofNat f.pages.length)) ⟨some f, c⟩ := by
  rw [existingPage, run_bind run_boundFile]
  simp only [h]
  rfl

section
variable {b : Bytes} (s : Access)

theorem run_readPage_size {size : Nat} (h : size ≠ pageSize) (n : PageNum) :
    readPage n size s = .error (.invalidPageSize pageSize size) s := by
  rw [readPage, if_neg h]
  rfl

theorem run_writePage_size (h : b.length ≠ pageSize) (n : PageNum) :
    writePage n b s = .error (.invalidPageSize pageSize b.length) s := by
  rw [writePage, wholePage, dif_neg h]
  rfl

theorem run_appendPage_size (h : b.length ≠ pageSize) :
    appendPage b s = .error (.invalidPageSize pageSize b.length) s := by
  rw [appendPage, wholePage, dif_neg h]
  rfl

end

/-- A page is read, or the call fails and changes nothing. -/
theorem readPage_cases (n : PageNum) (size : Nat) (f : PagedFile) (c : Counters) :
    (size = pageSize ∧ ∃ p, f.pages[n.toNat]? = some p
      ∧ readPage n size ⟨some f, c⟩ = .ok p.bytes ⟨some f, { c with reads := c.reads + 1 }⟩)
    ∨ (size ≠ pageSize ∨ f.pages.length ≤ n.toNat) ∧ ∃ e, readPage n size ⟨some f, c⟩ = .error e ⟨some f, c⟩ := by
  by_cases hsize : size = pageSize
  · subst hsize
    cases hp : f.pages[n.toNat]? with
    | some p => exact .inl ⟨rfl, p, rfl, run_readPage hp⟩
    | none => exact .inr ⟨.inr (List.getElem?_eq_none_iff.mp hp), _, run_bind_error (run_missingPage hp c)⟩
  · exact .inr ⟨.inl hsize, _, run_readPage_size _ hsize n⟩

theorem writePage_cases (n : PageNum) (b : Bytes) (f : PagedFile) (c : Counters) :
    (n.toNat < f.pages.length ∧ ∃ hb : b.length = pageSize, writePage n b ⟨some f, c⟩
      = .ok () ⟨some (f.replace n.toNat ⟨b, hb⟩), { c with writes := c.writes + 1 }⟩)
    ∨ (b.length ≠ pageSize ∨ f.pages.length ≤ n.toNat) ∧ ∃ e, writePage n b ⟨some f, c⟩ = .error e ⟨some f, c⟩ := by
  by_cases hb : b.length = pageSize
  · by_cases hn : n.toNat < f.pages.length
    · exact .inl ⟨hn, hb, run_writePage (p := ⟨b, hb⟩) hn⟩
    · have hle := Nat.not_lt.mp hn
      have hwhole : wholePage b = .ok ⟨b, hb⟩ := dif_pos hb
      refine .inr ⟨.inr hle, .pageNotFound n (UInt32.ofNat f.pages.length), ?_⟩
      rw [writePage, hwhole]
      exact (run_bind rfl).trans (run_bind_error (run_missingPage (List.getElem?_eq_none hle) c))
  · exact .inr ⟨.inl hb, _, run_writePage_size _ hb n⟩

theorem appendPage_cases (b : Bytes) (f : PagedFile) (c : Counters) :
    (∃ hb : b.length = pageSize, appendPage b ⟨some f, c⟩ = .ok (UInt32.ofNat f.pages.length)
      ⟨some (f.append ⟨b, hb⟩), { c with appends := c.appends + 1 }⟩)
    ∨ b.length ≠ pageSize ∧ ∃ e, appendPage b ⟨some f, c⟩ = .error e ⟨some f, c⟩ := by
  by_cases hb : b.length = pageSize
  · exact .inl ⟨hb, run_appendPage (p := ⟨b, hb⟩)⟩
  · exact .inr ⟨hb, _, run_appendPage_size _ hb⟩

theorem does_readPage (h : f.pages[n.toNat]? = some p) : Does (readPage n) f p.bytes f :=
  fun _ => ⟨_, run_readPage h⟩

theorem does_writePage (h : n.toNat < f.pages.length) {b : Bytes} (hb : b.length = pageSize) :
    Does (writePage n b) f () (f.replace n.toNat ⟨b, hb⟩) :=
  fun _ => ⟨_, run_writePage (p := ⟨b, hb⟩) h⟩

theorem does_appendPage (f : PagedFile) {b : Bytes} (hb : b.length = pageSize) :
    Does (appendPage b) f (UInt32.ofNat f.pages.length) (f.append ⟨b, hb⟩) :=
  fun _ => ⟨_, run_appendPage (p := ⟨b, hb⟩)⟩

end Access

end Tablespace
