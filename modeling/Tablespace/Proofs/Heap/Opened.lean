import Tablespace.Heap
import Tablespace.Proofs.Page.Opened

/-!
# Files of any bytes

What the steps of an operation do on a file where the pages that they load
open, whatever else the file holds.
-/

namespace Tablespace

open Access

/-- The page with the number opens. -/
def PagedFile.Opens (f : PagedFile) (n : PageNum) (p : SlottedPage) : Prop :=
  ∃ page, f.pages[n.toNat]? = some page ∧ SlottedPage.ofBytes page.bytes n = .ok p

/-- The slot that a file stores under an identifier. -/
def Heap.slotAt (f : PagedFile) (id : RecordId) : Option Slot :=
  f.pages[id.page.toNat]?.bind fun page =>
    ((SlottedPage.ofBytes page.bytes id.page).bind fun p => p.slot id.slot).toOption

namespace PagedFile

variable {f f₁ : PagedFile} {n m : PageNum} {p q : SlottedPage}

theorem Opens.opens (h : f.Opens n p) : p.Opens := by
  obtain ⟨page, -, hp⟩ := h
  exact (SlottedPage.ofBytes_eq_ok hp).1

theorem Opens.number_eq (h : f.Opens n p) : p.number = n := by
  obtain ⟨page, -, hp⟩ := h
  exact (SlottedPage.ofBytes_eq_ok hp).2.2

theorem Opens.inj (h : f.Opens n p) (h' : f.Opens n q) : p = q := by
  obtain ⟨page, hpage, hp⟩ := h
  obtain ⟨page', hpage', hq⟩ := h'
  rw [hpage, Option.some.injEq] at hpage'
  rw [hpage', hq, Except.ok.injEq] at hp
  exact hp.symm

theorem Opens.lt (h : f.Opens n p) : n.toNat < f.pages.length := by
  obtain ⟨page, hpage, -⟩ := h
  exact (List.getElem?_eq_some_iff.mp hpage).1

theorem Opens.lt_count (h : f.Opens n p) (hf : f.pages.length < UInt32.size) :
    n < UInt32.ofNat f.pages.length := by
  rw [UInt32.lt_iff_toNat_lt, UInt32.toNat_ofNat_of_lt' hf]
  exact h.lt

theorem Opens.congr (h : f.Opens n p) (hpages : f₁.pages[n.toNat]? = f.pages[n.toNat]?) :
    f₁.Opens n p := by
  obtain ⟨page, hpage, hp⟩ := h
  exact ⟨page, hpages.trans hpage, hp⟩

theorem Opens.replace_other (h : f.Opens n p) (hm : m ≠ n) (page : Page) :
    (f.replace m.toNat page).Opens n p :=
  h.congr (List.getElem?_set_ne fun he => hm (UInt32.toNat_inj.mp he))

theorem Opens.replace_own (h : f.Opens n p) (hq : p.Reopens q) :
    (f.replace n.toNat ⟨q.bytes, hq.size_eq⟩).Opens n q :=
  ⟨_, List.getElem?_set_self h.lt, hq.number_eq.trans h.number_eq ▸ hq.ofBytes_eq⟩

theorem Opens.append (h : f.Opens n p) (page : Page) : (f.append page).Opens n p :=
  h.congr (List.getElem?_append_left h.lt)

/-- A page that is written back as it was read leaves the file as it was. -/
theorem Opens.replace_self (h : f.Opens n p) (hb : p.bytes.length = pageSize) :
    f.replace n.toNat ⟨p.bytes, hb⟩ = f := by
  obtain ⟨page, hpage, hp⟩ := h
  obtain ⟨hlt, rfl⟩ := List.getElem?_eq_some_iff.mp hpage
  have hbytes := (SlottedPage.ofBytes_eq_ok hp).2.1
  have : (⟨p.bytes, hb⟩ : Page) = f.pages[n.toNat] := by
    cases hpg : f.pages[n.toNat] with
    | mk bytes length_eq =>
      rw [hpg] at hbytes
      cases hbytes
      rfl
  rw [this, replace, List.set_getElem_self]

def single (p : SlottedPage) (hb : p.bytes.length = pageSize) : PagedFile :=
  PagedFile.empty.append ⟨p.bytes, hb⟩

theorem opens_single (hb : p.bytes.length = pageSize) (hp : SlottedPage.ofBytes p.bytes 0 = .ok p) :
    (single p hb).Opens 0 p := ⟨_, rfl, hp⟩

end PagedFile

namespace Heap

variable {α : Type} {f : PagedFile} {n : PageNum} {p q : SlottedPage} {change : PageM α} {a : α}
  {id target : RecordId} {o l : UInt16} {s : Slot} {e : Halt}

theorem slotAt_eq_some_iff :
    slotAt f id = some s ↔ ∃ p, f.Opens id.page p ∧ p.slot id.slot = .ok s := by
  constructor
  · intro h
    obtain ⟨page, hpage, hs⟩ := Option.bind_eq_some_iff.mp h
    cases hp : SlottedPage.ofBytes page.bytes id.page with
    | error e => rw [hp] at hs; cases hs
    | ok p =>
      rw [hp] at hs
      change (p.slot id.slot).toOption = some s at hs
      cases hslot : p.slot id.slot with
      | error e => rw [hslot] at hs; cases hs
      | ok t => rw [hslot] at hs; cases hs; exact ⟨p, ⟨page, hpage, hp⟩, hslot⟩
  · rintro ⟨p, ⟨page, hpage, hp⟩, hs⟩
    rw [slotAt, hpage, Option.bind_some, hp]
    change (p.slot id.slot).toOption = some s
    rw [hs]
    rfl

/-! ## Loading and editing -/

theorem does_lift {x : Except RecordError α} (h : x = .ok a) : Does (liftM x : RecordM α) f a f := by
  subst h
  exact Does.pure f a

theorem refuses_lift {x : Except RecordError α} {fault : RecordError} (h : x = .error fault) :
    Refuses (liftM x : RecordM α) f (.failed fault) := by
  subst h
  exact Fails.throw f _

theorem does_liftFile {work : FileM α} {f₁ : PagedFile} (h : Does work f a f₁) :
    Does (liftM work : RecordM α) f a f₁ := h.adaptExcept _

theorem does_count (f : PagedFile) :
    Does (liftM pageCount : RecordM PageNum) f (UInt32.ofNat f.pages.length) f :=
  does_liftFile (does_pageCount f)

theorem does_loadPage (h : f.Opens n p) : Does (loadPage n) f p f := by
  obtain ⟨page, hpage, hp⟩ := h
  exact (does_liftFile (does_readPage hpage)).bind (does_lift hp)

theorem does_editPage (h : f.Opens n p) (hrun : change p = .ok a q) (hb : q.bytes.length = pageSize) :
    Does (editPage n change) f a (f.replace n.toNat ⟨q.bytes, hb⟩) := by
  refine (does_loadPage h).bind ?_
  simp only [EStateM.run, hrun]
  exact (does_liftFile (does_writePage h.lt hb)).bind (Does.pure _ _)

theorem does_editPage_self (h : f.Opens n p) (hrun : change p = .ok a p) :
    Does (editPage n change) f a f := by
  have hdoes := does_editPage h hrun h.opens.size
  rwa [h.replace_self] at hdoes

theorem refuses_editPage (h : f.Opens n p) (hrun : change p = .error e q) :
    Refuses (editPage n change) f e := by
  refine (does_loadPage h).bind_fails ?_
  simp only [EStateM.run, hrun]
  exact Fails.throw f e

/-! ## Following identifiers -/

theorem does_homePage (hcount : id.page < UInt32.ofNat f.pages.length) (h : f.Opens id.page p) :
    Does (homePage id) f p f := by
  refine (does_count f).bind ?_
  rw [if_pos hcount]
  exact does_loadPage h

theorem refuses_homePage (hpast : ¬ id.page < UInt32.ofNat f.pages.length) :
    Refuses (homePage id) f (.failed (.recordNotFound id)) := by
  refine (does_count f).bind_fails ?_
  rw [if_neg hpast]
  exact (Fails.throw f _).bind

theorem does_homeSlot (hcount : id.page < UInt32.ofNat f.pages.length) (h : f.Opens id.page p)
    (hs : p.slot id.slot = .ok s) : Does (homeSlot id) f s f :=
  (does_homePage hcount h).bind (does_lift hs)

theorem does_follow (home : RecordId) (hcount : target.page < UInt32.ofNat f.pages.length)
    (h : f.Opens target.page p) (hs : p.slot target.slot = .ok (.moved o l)) :
    Does (follow home target) f (p, o, l) f := by
  refine (does_count f).bind ?_
  rw [if_pos hcount]
  refine (does_loadPage h).bind ?_
  simp only [hs]
  exact Does.pure f _

theorem refuses_follow (home : RecordId) (hpast : ¬ target.page < UInt32.ofNat f.pages.length) :
    Refuses (follow home target) f (.failed (.corruption home.page (.forwardsPastEnd home.slot target))) := by
  refine (does_count f).bind_fails ?_
  rw [if_neg hpast]
  exact (Fails.throw f _).bind

end Heap

end Tablespace
