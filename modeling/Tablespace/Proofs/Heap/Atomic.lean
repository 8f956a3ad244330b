import Tablespace.Proofs.Heap.Pages

/-!
# Steps that succeed or leave the file as it was

A file of any bytes is changed by an operation in steps. A step succeeds, or it
fails and leaves the file as it was, and a computation has the same property when
whatever follows its first change succeeds.
-/

namespace Tablespace

namespace Access

variable {ε ε' α β : Type} {f f₁ : PagedFile} {a : α} {e : ε} {work : EStateM ε Access α}
  {post : α → PagedFile → Prop}

/-- The computation succeeds as the postcondition says, or it fails and leaves the file as it was. -/
def Atomic (work : EStateM ε Access α) (f : PagedFile) (post : α → PagedFile → Prop) : Prop :=
  (∃ a f₁, Does work f a f₁ ∧ post a f₁) ∨ ∃ e, Refuses work f e

theorem Does.atomic (h : Does work f a f₁) (hpost : post a f₁) : Atomic work f post :=
  .inl ⟨a, f₁, h, hpost⟩

theorem Fails.atomic (h : Refuses work f e) : Atomic work f post := .inr ⟨e, h⟩

theorem Atomic.mono {post' : α → PagedFile → Prop} (h : Atomic work f post)
    (hpost : ∀ a f₁, post a f₁ → post' a f₁) : Atomic work f post' := by
  rcases h with ⟨a, f₁, hdoes, hp⟩ | hno
  · exact hdoes.atomic (hpost a f₁ hp)
  · exact .inr hno

/-- What follows a step may fail only where the step has left the file as it was. -/
theorem Atomic.bind {k : α → EStateM ε Access β} {post' : β → PagedFile → Prop}
    (h : Atomic work f post)
    (hk : ∀ a f₁, post a f₁ → (f₁ = f ∧ Atomic (k a) f post') ∨ ∃ b f₂, Does (k a) f₁ b f₂ ∧ post' b f₂) :
    Atomic (work >>= k) f post' := by
  rcases h with ⟨a, f₁, hdoes, hp⟩ | ⟨e, hno⟩
  · rcases hk a f₁ hp with ⟨rfl, ⟨b, f₂, hdoes', hp'⟩ | ⟨e, hno⟩⟩ | ⟨b, f₂, hdoes', hp'⟩
    · exact (hdoes.bind hdoes').atomic hp'
    · exact (hdoes.bind_fails hno).atomic
    · exact (hdoes.bind hdoes').atomic hp'
  · exact hno.bind.atomic

theorem Does.bind_atomic {k : α → EStateM ε Access β} {post : β → PagedFile → Prop}
    (h : Does work f a f) (hk : Atomic (k a) f post) : Atomic (work >>= k) f post := by
  rcases hk with ⟨b, f₁, hdoes, hp⟩ | ⟨e, hno⟩
  · exact (h.bind hdoes).atomic hp
  · exact (h.bind_fails hno).atomic

theorem Atomic.adaptExcept {g : ε → ε'} (h : Atomic work f post) :
    Atomic (EStateM.adaptExcept g work) f post := by
  rcases h with ⟨a, f₁, hdoes, hp⟩ | ⟨e, hno⟩
  · exact (hdoes.adaptExcept g).atomic hp
  · refine .inr ⟨g e, fun c => ?_⟩
    obtain ⟨c', hc⟩ := hno c
    exact ⟨c', by simp only [EStateM.adaptExcept, hc]⟩

theorem Atomic.file_eq (h : Atomic work f post) {c : Counters} {s : Access}
    (hrun : work ⟨some f, c⟩ = .error e s) : s.file = some f := by
  rcases h with ⟨a, f₁, hdoes, -⟩ | ⟨e', hno⟩
  · obtain ⟨c', hc⟩ := hdoes c
    rw [hrun] at hc
    cases hc
  · obtain ⟨c', hc⟩ := hno c
    rw [hrun] at hc
    cases hc
    rfl

theorem Atomic.of_does (h : Atomic work f post) (hdoes : Does work f a f₁) : post a f₁ := by
  obtain ⟨c, hc⟩ := hdoes {}
  rcases h with ⟨a', f', hdoes', hp⟩ | ⟨e, hno⟩
  · obtain ⟨c', hc'⟩ := hdoes' {}
    rw [hc] at hc'
    cases hc'
    exact hp
  · obtain ⟨c', hc'⟩ := hno {}
    rw [hc] at hc'
    cases hc'

/-! ## Pages -/

variable {n : PageNum}

theorem refuses_existingPage (h : f.pages[n.toNat]? = none) :
    Refuses (existingPage n) f (.pageNotFound n (UInt32.ofNat f.pages.length)) :=
  fun c => ⟨c, run_missingPage h c⟩

theorem atomic_readPage (n : PageNum) (f : PagedFile) :
    Atomic (readPage n) f fun b f₁ => f₁ = f ∧ ∃ page, f.pages[n.toNat]? = some page ∧ b = page.bytes := by
  cases hp : f.pages[n.toNat]? with
  | some page => exact (does_readPage hp).atomic ⟨rfl, page, rfl, rfl⟩
  | none => exact (refuses_existingPage hp).bind.atomic

theorem atomic_writePage (n : PageNum) (b : Bytes) (f : PagedFile) :
    Atomic (writePage n b) f fun _ f₁ => n.toNat < f.pages.length
      ∧ ∃ hb : b.length = pageSize, f₁ = f.replace n.toNat ⟨b, hb⟩ := by
  by_cases hb : b.length = pageSize
  · by_cases hn : n.toNat < f.pages.length
    · exact (does_writePage hn hb).atomic ⟨hn, hb, rfl⟩
    · have hmissing := List.getElem?_eq_none (Nat.not_lt.mp hn)
      have hwhole : wholePage b = .ok ⟨b, hb⟩ := dif_pos hb
      exact ((does_liftExcept hwhole).bind_fails (refuses_existingPage hmissing).bind).atomic
  · exact .inr ⟨_, fun c => ⟨c, run_writePage_size _ hb n⟩⟩

theorem atomic_appendPage (b : Bytes) (f : PagedFile) :
    Atomic (appendPage b) f fun _ f₁ => ∃ hb : b.length = pageSize, f₁ = f.append ⟨b, hb⟩ := by
  by_cases hb : b.length = pageSize
  · exact (does_appendPage f hb).atomic ⟨hb, rfl⟩
  · exact .inr ⟨_, fun c => ⟨c, run_appendPage_size _ hb⟩⟩

end Access

namespace Heap

open Access

variable {α : Type} {f f₁ : PagedFile} {n : PageNum} {p q : SlottedPage} {change : PageM α} {a : α}
  {packed : Bytes} {id home target : RecordId} {o l : UInt16}

theorem atomic_lift (x : Except RecordError α) (f : PagedFile) :
    Atomic (liftM x : RecordM α) f fun a f₁ => f₁ = f ∧ x = .ok a := by
  cases x with
  | ok a => exact (does_lift rfl).atomic ⟨rfl, rfl⟩
  | error e => exact (refuses_lift rfl).atomic

theorem atomic_loadPage (n : PageNum) (f : PagedFile) :
    Atomic (loadPage n) f fun p f₁ => f₁ = f ∧ f.Opens n p := by
  refine (atomic_readPage n f).adaptExcept.bind ?_
  rintro b f₁ ⟨rfl, page, hpage, rfl⟩
  refine .inl ⟨rfl, (atomic_lift _ _).mono ?_⟩
  rintro p f₁ ⟨rfl, hp⟩
  exact ⟨rfl, page, hpage, hp⟩

theorem atomic_editPage (n : PageNum) (change : PageM α) (f : PagedFile) :
    Atomic (editPage n change) f fun a f₁ => ∃ p q, f.Opens n p ∧ change p = .ok a q
      ∧ ∃ hb : q.bytes.length = pageSize, f₁ = f.replace n.toNat ⟨q.bytes, hb⟩ := by
  refine (atomic_loadPage n f).bind ?_
  rintro p f₁ ⟨rfl, hp⟩
  refine .inl ⟨rfl, ?_⟩
  simp only [EStateM.run]
  cases hrun : change p with
  | ok a q =>
    refine (atomic_writePage n q.bytes f₁).adaptExcept.bind ?_
    rintro u f₂ ⟨hn, hb, rfl⟩
    exact .inr ⟨a, _, Does.pure _ _, p, q, hp, hrun, hb, rfl⟩
  | error e q => exact (Fails.throw f₁ e).atomic

/-! ## Placing -/

/-- Pages without room for so many bytes open as they did. -/
def KeepsFull (f f₁ : PagedFile) (length : Nat) : Prop :=
  ∀ n p, f.Opens n p → p.canHold length = false → f₁.Opens n p

theorem atomic_placeAmong (packed : Bytes) (isMoved : Bool) (f : PagedFile) : ∀ ns : List PageNum,
    Atomic (placeAmong packed isMoved ns) f fun id f₁ => (id = none → f₁ = f)
      ∧ f₁.pages.length = f.pages.length ∧ KeepsFull f f₁ packed.length
  | [] => (Does.pure f none).atomic ⟨fun _ => rfl, rfl, fun _ _ h _ => h⟩
  | n :: ns => by
    refine (atomic_loadPage n f).bind ?_
    rintro p f₁ ⟨rfl, hp⟩
    refine .inl ⟨rfl, ?_⟩
    by_cases hcan : p.canHold packed.length = true
    · simp only [if_pos hcan, EStateM.run]
      cases hrun : SlottedPage.insert packed isMoved p with
      | error e q => exact (Fails.throw f₁ e).atomic
      | ok slot q =>
        refine (atomic_writePage n q.bytes f₁).adaptExcept.bind ?_
        rintro u f₂ ⟨hn, hb, rfl⟩
        refine .inr ⟨_, _, Does.pure _ _, by simp, by simp [PagedFile.replace], fun m p' hm hfull => ?_⟩
        refine hm.replace_other ?_ _
        rintro rfl
        rw [hp.inj hm, hfull] at hcan
        cases hcan
    · simp only [if_neg hcan]
      exact atomic_placeAmong packed isMoved f₁ ns

theorem atomic_placeNew (packed : Bytes) (isMoved : Bool) (f : PagedFile) :
    Atomic (placeNew packed isMoved) f fun _ f₁ => f₁.pages.length = f.pages.length + 1
      ∧ KeepsFull f f₁ packed.length := by
  refine (does_count f).bind_atomic ?_
  simp only [EStateM.run]
  cases hrun : SlottedPage.insert packed isMoved (SlottedPage.empty (UInt32.ofNat f.pages.length)) with
  | error e q => exact (Fails.throw f e).atomic
  | ok slot q =>
    refine (atomic_appendPage q.bytes f).adaptExcept.bind ?_
    rintro n f₂ ⟨hb, rfl⟩
    exact .inr ⟨_, _, Does.pure _ _, by simp [PagedFile.append], fun m p hm _ => hm.append _⟩

theorem atomic_place (packed : Bytes) (isMoved : Bool) (f : PagedFile) :
    Atomic (place packed isMoved) f fun _ f₁ => f₁.pages.length ≤ f.pages.length + 1
      ∧ KeepsFull f f₁ packed.length := by
  refine (does_count f).bind_atomic ((atomic_placeAmong packed isMoved f _).bind ?_)
  rintro (_ | id) f₂ ⟨hnone, hlen, hfull⟩
  · obtain rfl := hnone rfl
    refine .inl ⟨rfl, (atomic_placeNew packed isMoved f₂).mono ?_⟩
    rintro id f₃ ⟨hlen, hfull⟩
    exact ⟨Nat.le_of_eq hlen, hfull⟩
  · exact .inr ⟨id, f₂, Does.pure _ _, by omega, hfull⟩

/-! ## Following identifiers -/

theorem atomic_follow (home target : RecordId) (f : PagedFile) :
    Atomic (follow home target) f fun r f₁ => f₁ = f ∧ target.page < UInt32.ofNat f.pages.length
      ∧ f.Opens target.page r.1 ∧ r.1.slot target.slot = .ok (.moved r.2.1 r.2.2) := by
  refine (does_count f).bind_atomic ?_
  by_cases hcount : target.page < UInt32.ofNat f.pages.length
  · simp only [if_pos hcount]
    refine (atomic_loadPage target.page f).bind ?_
    rintro p f₁ ⟨rfl, hp⟩
    refine .inl ⟨rfl, ?_⟩
    split
    · exact (Does.pure f₁ _).atomic ⟨rfl, hcount, hp, ‹_›⟩
    all_goals exact (Fails.throw f₁ _).atomic
  · simp only [if_neg hcount]
    exact (Fails.throw f _).bind.atomic

theorem atomic_homeSlot (id : RecordId) (f : PagedFile) :
    Atomic (homeSlot id) f fun s f₁ => f₁ = f ∧ ∃ p, f.Opens id.page p ∧ p.slot id.slot = .ok s := by
  have hpage : Atomic (homePage id) f fun p f₁ => f₁ = f ∧ f.Opens id.page p := by
    refine (does_count f).bind_atomic ?_
    by_cases hcount : id.page < UInt32.ofNat f.pages.length
    · simp only [if_pos hcount]
      exact atomic_loadPage id.page f
    · simp only [if_neg hcount]
      exact (Fails.throw f _).bind.atomic
  refine hpage.bind ?_
  rintro p f₁ ⟨rfl, hp⟩
  refine .inl ⟨rfl, (atomic_lift _ _).mono ?_⟩
  rintro s f₁ ⟨rfl, hs⟩
  exact ⟨rfl, p, hp, hs⟩

end Heap

end Tablespace
