import Tablespace.Proofs.File.Calls
import Tablespace.Proofs.Volume.Through

/-!
# Files that handles share

Any number of handles may be bound to a file, and each call through any of
them sees what the calls before it left. A log of the calls tells what the
pages hold and what the handles have counted.
-/

namespace Tablespace

namespace Volume

/-- A call goes through the handle to the file that the handle is bound to, or it fails and changes
nothing. -/
theorem call_cases (v : Volume) (name : String) (call : FileCall) :
    (∃ e v', through name call.perform v = .error e v' ∧ Same v v')
    ∨ ∃ j f r f' v', v.Binds name j ∧ v.files[j]? = some f ∧ FileCall.Acts f call r f'
      ∧ through name call.perform v = .ok r v'
      ∧ Went v v' name j f' (call.counted (v.handle name).counters) := by
  cases hfile : (v.handle name).binding.bind fun b => v.files[b.file]? with
  | none =>
    have haccess : v.accessOf (v.handle name) = ⟨none, (v.handle name).counters⟩ := by rw [accessOf, hfile]
    obtain ⟨e, hrun⟩ := call.perform_unbound (v.handle name).counters
    rw [← haccess] at hrun
    obtain ⟨v', hv', hsame⟩ := through_same hrun
    exact .inl ⟨e, v', hv', hsame⟩
  | some f =>
    obtain ⟨b, hb, hf⟩ := Option.bind_eq_some_iff.mp hfile
    have hn : v.Binds name b.file := ⟨b, hb, rfl⟩
    rcases call.perform_cases f (v.handle name).counters with ⟨r, f', hacts, hrun⟩ | ⟨-, e, hrun⟩
    · obtain ⟨v', hv', hwent⟩ := through_went hn hf hrun
      exact .inr ⟨b.file, f, r, f', v', hn, hf, hacts, hv', hwent⟩
    · rw [← hn.accessOf_eq hf] at hrun
      obtain ⟨v', hv', hsame⟩ := through_same hrun
      exact .inl ⟨e, v', hv', hsame⟩

/-! ## Opening and closing -/

/-- Opening or closing a handle leaves the files and all counts as they were. -/
structure Rebinds (v v' : Volume) : Prop where
  files : v'.files = v.files
  counters : ∀ other, (v'.handle other).counters = (v.handle other).counters

theorem rebinds_setHandle (v : Volume) (name : String) (binding : Option Binding) :
    Rebinds v (v.setHandle name { v.handle name with binding }) where
  files := rfl
  counters other := by
    by_cases h : other = name
    · subst h
      rw [handle_setHandle_self]
    · rw [handle_setHandle_other _ h]

theorem rebinds_openHandle (v : Volume) (name path : String) : Rebinds v (finalState (openHandle name path v)) := by
  unfold openHandle
  rw [run_get_bind]
  cases hbinding : (v.handle name).binding with
  | some b => exact ⟨rfl, fun _ => rfl⟩
  | none =>
    cases v.openable path with
    | error e => exact ⟨rfl, fun _ => rfl⟩
    | ok number => exact rebinds_setHandle v name (some ⟨number, path⟩)

theorem rebinds_closeHandle (v : Volume) (name : String) : Rebinds v (finalState (closeHandle name v)) := by
  unfold closeHandle
  rw [run_get_bind]
  cases hbinding : (v.handle name).binding with
  | none => exact ⟨rfl, fun _ => rfl⟩
  | some b => exact rebinds_setHandle v name none

end Volume

/-! ## Logs -/

/-- A call through a handle that was bound to a file or to none, and what it replied. -/
structure FileEvent where
  name : String
  file : Option Nat
  call : FileCall
  reply : Except FileError FileReply

namespace FileCall

def isRead : FileCall → Bool
  | .read .. => true
  | _ => false

def isWrite : FileCall → Bool
  | .write .. => true
  | _ => false

def isAppend : FileCall → Bool
  | .append _ => true
  | _ => false

end FileCall

namespace FileEvent

/-- Whether the event is a call of a kind that succeeded through a handle. -/
def counts (name : String) (kind : FileCall → Bool) (e : FileEvent) : Bool :=
  match e.reply with
  | .ok _ => e.name = name && kind e.call
  | .error _ => false

/-- What the event stored on a page of a file. -/
def stored? (k : Nat) (page : PageNum) (e : FileEvent) : Option Bytes :=
  match e.call, e.reply with
  | .write n b, .ok _ => if e.file = some k ∧ n = page then some b else none
  | .append b, .ok (.number n) => if e.file = some k ∧ n = page then some b else none
  | _, _ => none

end FileEvent

/-- How many reads, writes and appends succeeded through a handle. -/
def tally (name : String) (log : List FileEvent) : Counters where
  reads := log.countP (FileEvent.counts name FileCall.isRead)
  writes := log.countP (FileEvent.counts name FileCall.isWrite)
  appends := log.countP (FileEvent.counts name FileCall.isAppend)

/-- What was last stored on a page of a file; the log begins with the last event. -/
def lastStored (k : Nat) (page : PageNum) (log : List FileEvent) : Option Bytes :=
  log.findSome? (FileEvent.stored? k page)

def Counters.plus (c d : Counters) : Counters := ⟨c.reads + d.reads, c.writes + d.writes, c.appends + d.appends⟩

section
variable {name : String} {k : Nat} {log : List FileEvent} {e : FileEvent} {page : PageNum}

theorem tally_cons_other (h : e.name ≠ name ∨ ∃ fault, e.reply = .error fault) :
    tally name (e :: log) = tally name log := by
  have hno : ∀ kind, FileEvent.counts name kind e = false := by
    intro kind
    unfold FileEvent.counts
    rcases h with h | ⟨fault, hreply⟩
    · cases e.reply with
      | ok r => simp [h]
      | error fault => rfl
    · rw [hreply]
  simp [tally, hno]

theorem plus_tally_cons {r : FileReply} (c : Counters) (log : List FileEvent) (h : e.name = name)
    (hreply : e.reply = .ok r) : c.plus (tally name (e :: log)) = e.call.counted (c.plus (tally name log)) := by
  have hyes : ∀ kind, FileEvent.counts name kind e = kind e.call := by
    intro kind
    unfold FileEvent.counts
    rw [hreply]
    simp [h]
  simp only [tally, List.countP_cons, hyes]
  cases e.call <;> rfl

theorem lastStored_cons (k : Nat) (page : PageNum) (e : FileEvent) (log : List FileEvent) :
    lastStored k page (e :: log) = (e.stored? k page).or (lastStored k page log) := by
  unfold lastStored
  rw [List.findSome?_cons]
  cases e.stored? k page <;> rfl

theorem stored?_other (h : e.file ≠ some k ∨ ∃ fault, e.reply = .error fault) : e.stored? k page = none := by
  obtain ⟨name, file, call, reply⟩ := e
  rcases h with h | ⟨fault, h⟩
  · cases call <;> rcases reply with fault | (n | b | _) <;> simp_all [FileEvent.stored?]
  · cases call <;> simp_all [FileEvent.stored?]

end

/-- The bytes are what was last stored on a page, or those of the first file where nothing was. -/
def ComesFrom (k : Nat) (f₀ : PagedFile) (log : List FileEvent) (page : PageNum) (b : Bytes) : Prop :=
  lastStored k page log = some b
    ∨ lastStored k page log = none ∧ f₀.toBytes.slice (page.toNat * pageSize) pageSize = .ok b

theorem ComesFrom.cons {k : Nat} {f₀ : PagedFile} {log : List FileEvent} {page : PageNum} {b : Bytes} {e : FileEvent}
    (h : ComesFrom k f₀ log page b) (hno : e.stored? k page = none) : ComesFrom k f₀ (e :: log) page b := by
  unfold ComesFrom
  rwa [lastStored_cons, hno]

theorem comesFrom_stored {k : Nat} {f₀ : PagedFile} {log : List FileEvent} {page : PageNum} {b : Bytes} {e : FileEvent}
    (hstored : e.stored? k page = some b) : ComesFrom k f₀ (e :: log) page b := by
  refine .inl ?_
  rw [lastStored_cons, hstored]
  rfl

theorem FileCall.Acts.length_le {f f' : PagedFile} {call : FileCall} {r : FileReply} (h : Acts f call r f') :
    f.pages.length ≤ f'.pages.length := by
  cases h with
  | count | read => exact Nat.le_refl _
  | write => exact Nat.le_of_eq (by simp [PagedFile.replace])
  | append => simp [PagedFile.append]

/-- What comes from the log comes from it still when the next call is on it. -/
theorem FileCall.Acts.comesFrom {f₀ f f' : PagedFile} {call : FileCall} {r : FileReply} {k : Nat} {log : List FileEvent}
    (h : Acts f call r f') (hsize : f'.pages.length < UInt32.size)
    (hpages : ∀ (page : PageNum) p, f.pages[page.toNat]? = some p → ComesFrom k f₀ log page p.bytes) (name : String) :
    ∀ (page : PageNum) p, f'.pages[page.toNat]? = some p →
      ComesFrom k f₀ (⟨name, some k, call, .ok r⟩ :: log) page p.bytes := by
  intro page p hp
  cases h with
  | count => exact (hpages page p hp).cons rfl
  | read => exact (hpages page p hp).cons rfl
  | @write n q hlt =>
    simp only [PagedFile.replace] at hp
    by_cases hn : n = page
    · subst hn
      rw [List.getElem?_set_self hlt] at hp
      cases hp
      exact comesFrom_stored (by simp [FileEvent.stored?])
    · have hne : n.toNat ≠ page.toNat := fun heq => hn (UInt32.toNat_inj.mp heq)
      rw [List.getElem?_set_ne hne] at hp
      exact (hpages page p hp).cons (by simp [FileEvent.stored?, hn])
  | @append q =>
    simp only [PagedFile.append, List.length_append, List.length_singleton] at hp hsize
    have hcount : (UInt32.ofNat f.pages.length).toNat = f.pages.length := UInt32.toNat_ofNat_of_lt' (by omega)
    by_cases hn : UInt32.ofNat f.pages.length = page
    · rw [← hn, hcount, List.getElem?_concat_length] at hp
      cases hp
      exact comesFrom_stored (by simp [FileEvent.stored?, hn])
    · have hlt : page.toNat < f.pages.length := by
        have hle := (List.getElem?_eq_some_iff.mp hp).1
        rw [List.length_append, List.length_singleton] at hle
        have hne : page.toNat ≠ f.pages.length := fun heq => hn (UInt32.toNat_inj.mp (hcount.trans heq.symm))
        omega
      rw [List.getElem?_append_left hlt] at hp
      exact (hpages page p hp).cons (by simp [FileEvent.stored?, hn])

namespace Volume

/-! ## Runs -/

def outcome {ε σ α : Type} : EStateM.Result ε σ α → Except ε α
  | .ok a _ => .ok a
  | .error e _ => .error e

def eventOf (v : Volume) (name : String) (call : FileCall) : FileEvent where
  name
  file := (v.handle name).binding.map Binding.file
  call
  reply := outcome (through name call.perform v)

/-- The logs and volumes to which calls through any handles lead, with handles opened and closed and
other files worked on in between. -/
inductive Shares (k : Nat) (v₀ : Volume) : List FileEvent → Volume → Prop
  | start : Shares k v₀ [] v₀
  | called {log v} (name : String) (call : FileCall) : Shares k v₀ log v →
      Shares k v₀ (v.eventOf name call :: log) (finalState (through name call.perform v))
  | opened {log v} (name path : String) : Shares k v₀ log v → Shares k v₀ log (finalState (openHandle name path v))
  | closed {log v} (name : String) : Shares k v₀ log v → Shares k v₀ log (finalState (closeHandle name v))
  | aside {log v v'} : Shares k v₀ log v → v'.handles = v.handles → v'.files[k]? = v.files[k]? → Shares k v₀ log v'

/-- The log accounts for the counts of all handles and for the pages of the file. -/
structure Accounts (k : Nat) (v₀ : Volume) (f₀ : PagedFile) (log : List FileEvent) (v : Volume) (f : PagedFile) :
    Prop where
  file : v.files[k]? = some f
  counters : ∀ name, (v.handle name).counters = (v₀.handle name).counters.plus (tally name log)
  pages : f.pages.length < UInt32.size → ∀ (page : PageNum) p, f.pages[page.toNat]? = some p →
    ComesFrom k f₀ log page p.bytes

variable {k : Nat} {v₀ v v' : Volume} {f₀ f : PagedFile} {log : List FileEvent}

/-- A call that fails is on the log, and nothing is due to it. -/
theorem Accounts.failed {e : FileEvent} {fault : FileError} (h : Accounts k v₀ f₀ log v f) (hsame : Same v v')
    (hreply : e.reply = .error fault) : Accounts k v₀ f₀ (e :: log) v' f where
  file := (congrArg (·[k]?) hsame.files).trans h.file
  counters other := by
    rw [tally_cons_other (.inr ⟨fault, hreply⟩), ← h.counters other]
    exact congrArg Handle.counters (hsame.handles other)
  pages hsize page p hp := (h.pages hsize page p hp).cons (stored?_other (.inr ⟨fault, hreply⟩))

/-- A call that succeeds, on this file or on another, counts for the handle that it goes through. -/
theorem Accounts.counted {name : String} {call : FileCall} {r : FileReply} {j : Nat} {g : PagedFile}
    (h : Accounts k v₀ f₀ log v f) (hwent : Went v v' name j g (call.counted (v.handle name).counters))
    (other : String) : (v'.handle other).counters
      = (v₀.handle other).counters.plus (tally other (⟨name, some j, call, .ok r⟩ :: log)) := by
  by_cases ho : other = name
  · subst ho
    refine hwent.counters.trans ?_
    rw [h.counters other]
    exact (plus_tally_cons (e := ⟨other, some j, call, .ok r⟩) _ log rfl rfl).symm
  · rw [tally_cons_other (.inl (Ne.symm ho)), ← h.counters other, hwent.others other ho]

theorem Accounts.called (h : Accounts k v₀ f₀ log v f) (name : String) (call : FileCall) :
    ∃ f', Accounts k v₀ f₀ (v.eventOf name call :: log) (finalState (through name call.perform v)) f' := by
  rcases call_cases v name call with ⟨e, v', hrun, hsame⟩ | ⟨j, g, r, g', v', hn, hg, hacts, hrun, hwent⟩
  · have hreply : (v.eventOf name call).reply = .error e := by
      rw [eventOf, hrun]
      rfl
    rw [hrun]
    exact ⟨f, h.failed hsame hreply⟩
  · have hevent : v.eventOf name call = ⟨name, some j, call, .ok r⟩ := by
      obtain ⟨b, hb, rfl⟩ := hn
      rw [eventOf, hrun, hb]
      rfl
    rw [hrun, hevent]
    -- A call on another file stores nothing on a page of this one.
    by_cases hj : j = k
    · subst hj
      obtain rfl : f = g := Option.some.inj (h.file.symm.trans hg)
      refine ⟨g', getElem?_files_set hg hwent.files, h.counted hwent, fun hsize => ?_⟩
      exact hacts.comesFrom hsize (h.pages (Nat.lt_of_le_of_lt hacts.length_le hsize)) name
    · refine ⟨f, ?_, h.counted hwent, fun hsize page p hp => ?_⟩
      · show v'.files[k]? = some f
        rw [hwent.files, List.getElem?_set_ne hj]
        exact h.file
      · exact (h.pages hsize page p hp).cons (stored?_other (.inl fun heq => hj (Option.some.inj heq)))

theorem Accounts.rebinds (h : Accounts k v₀ f₀ log v f) (hrebinds : Rebinds v v') : Accounts k v₀ f₀ log v' f where
  file := hrebinds.files ▸ h.file
  counters other := (hrebinds.counters other).trans (h.counters other)
  pages := h.pages

theorem Shares.accounts (h : Shares k v₀ log v) (hf₀ : v₀.files[k]? = some f₀) : ∃ f, Accounts k v₀ f₀ log v f := by
  induction h with
  | start =>
    refine ⟨f₀, hf₀, fun name => rfl, ?_⟩
    intro _ page p hp
    exact .inr ⟨rfl, PagedFile.slice_toBytes hp⟩
  | called name call _ ih =>
    obtain ⟨f, hf⟩ := ih
    exact hf.called name call
  | @opened log v name path _ ih =>
    obtain ⟨f, hf⟩ := ih
    exact ⟨f, hf.rebinds (rebinds_openHandle v name path)⟩
  | @closed log v name _ ih =>
    obtain ⟨f, hf⟩ := ih
    exact ⟨f, hf.rebinds (rebinds_closeHandle v name)⟩
  | @aside log v v' _ hhandles hfile ih =>
    obtain ⟨f, hf⟩ := ih
    refine ⟨f, hfile.trans hf.file, fun other => ?_, hf.pages⟩
    rw [← hf.counters other, handle, hhandles, handle]

/-! ## Any run -/

/-- What the handles of a file give: the pages of one array of bytes. -/
structure Serves (k : Nat) (f₀ : PagedFile) (log : List FileEvent) (v : Volume) (f : PagedFile) : Prop where
  count : ∀ name, v.Binds name k → ∃ n v', through name Access.pageCount v = .ok n v'
    ∧ n.toNat = f.toBytes.length / pageSize ∧ Went v v' name k f (v.handle name).counters
  read : ∀ name page, v.Binds name k → page.toNat < f.toBytes.length / pageSize →
    ∃ b v', through name (Access.readPage page) v = .ok b v'
      ∧ f.toBytes.slice (page.toNat * pageSize) pageSize = .ok b ∧ ComesFrom k f₀ log page b
      ∧ Went v v' name k f { (v.handle name).counters with reads := (v.handle name).counters.reads + 1 }
  write : ∀ name page b, v.Binds name k → b.length = pageSize → page.toNat < f.toBytes.length / pageSize →
    ∃ f' v', through name (Access.writePage page b) v = .ok () v'
      ∧ f'.toBytes = f.toBytes.overwrite (page.toNat * pageSize) b ∧ f'.toBytes.length = f.toBytes.length
      ∧ Went v v' name k f' { (v.handle name).counters with writes := (v.handle name).counters.writes + 1 }
  append : ∀ name b, v.Binds name k → b.length = pageSize →
    ∃ n f' v', through name (Access.appendPage b) v = .ok n v' ∧ n.toNat = f.toBytes.length / pageSize
      ∧ f'.toBytes = f.toBytes.take (n.toNat * pageSize) ++ b
      ∧ f'.toBytes.length / pageSize = f.toBytes.length / pageSize + 1
      ∧ Went v v' name k f' { (v.handle name).counters with appends := (v.handle name).counters.appends + 1 }
  refused : ∀ name (call : FileCall), (v.handle name).binding = none
      ∨ v.Binds name k ∧ call.IsRefused (f.toBytes.length / pageSize) →
    ∃ e v', through name call.perform v = .error e v' ∧ Same v v'

theorem Accounts.serves (h : Accounts k v₀ f₀ log v f) (hsize : f.pages.length < UInt32.size) :
    Serves k f₀ log v f where
  count name hn := by
    obtain ⟨v', hv', hwent⟩ := through_went hn h.file Access.run_pageCount
    exact ⟨_, v', hv', by rw [f.length_toBytes_div, UInt32.toNat_ofNat_of_lt' hsize], hwent⟩
  read name page hn hlt := by
    rw [f.length_toBytes_div] at hlt
    have hp := List.getElem?_eq_getElem hlt
    obtain ⟨v', hv', hwent⟩ := through_went hn h.file (Access.run_readPage hp)
    exact ⟨_, v', hv', PagedFile.slice_toBytes hp, h.pages hsize page _ hp, hwent⟩
  write name page b hn hb hlt := by
    rw [f.length_toBytes_div] at hlt
    obtain ⟨v', hv', hwent⟩ := through_went hn h.file (Access.run_writePage (p := ⟨b, hb⟩) hlt)
    refine ⟨_, v', hv', PagedFile.toBytes_replace hlt ⟨b, hb⟩, ?_, hwent⟩
    rw [PagedFile.length_toBytes, PagedFile.length_toBytes]
    simp [PagedFile.length, PagedFile.replace]
  append name b hn hb := by
    obtain ⟨v', hv', hwent⟩ := through_went hn h.file (Access.run_appendPage (p := ⟨b, hb⟩))
    have hcount : (UInt32.ofNat f.pages.length).toNat = f.pages.length := UInt32.toNat_ofNat_of_lt' hsize
    refine ⟨_, _, v', hv', ?_, ?_, ?_, hwent⟩
    · rw [f.length_toBytes_div, hcount]
    · rw [hcount, f.toBytes_append]
    · rw [PagedFile.length_toBytes_div, PagedFile.length_toBytes_div]
      simp [PagedFile.append]
  refused name call hno := by
    rcases hno with hnone | ⟨hn, hrefused⟩
    · obtain ⟨e, hrun⟩ := call.perform_unbound (v.handle name).counters
      have haccess : v.accessOf (v.handle name) = ⟨none, (v.handle name).counters⟩ := by rw [accessOf, hnone]; rfl
      rw [← haccess] at hrun
      exact ⟨e, through_same hrun⟩
    · rw [f.length_toBytes_div] at hrefused
      obtain ⟨e, hrun⟩ := FileCall.perform_refused hrefused (v.handle name).counters
      rw [← hn.accessOf_eq h.file] at hrun
      exact ⟨e, through_same hrun⟩

/-- After any calls, the handles of a file give the pages that the log tells, and each has counted
what succeeded through it. -/
theorem serves_of_shares (h : Shares k v₀ log v) (hf₀ : v₀.files[k]? = some f₀) (hbelow : v.Below k) :
    ∃ f, v.files[k]? = some f ∧ Serves k f₀ log v f
      ∧ ∀ name, (v.handle name).counters = (v₀.handle name).counters.plus (tally name log) := by
  obtain ⟨f, haccounts⟩ := h.accounts hf₀
  obtain ⟨g, hg, hsize⟩ := hbelow
  obtain rfl : f = g := Option.some.inj (haccounts.file.symm.trans hg)
  exact ⟨f, haccounts.file, haccounts.serves hsize, haccounts.counters⟩

/-- Two handles that are bound to a file of three bytes. -/
def paired : Volume where
  files := [.ofBytes [1, 2, 3]]
  handles := [("x", { binding := some ⟨0, "f"⟩ }), ("y", { binding := some ⟨0, "f"⟩ })]

/-- One handle appends and is closed; the other sees the page in place of the three bytes. -/
theorem serves_of_shares_paired : ∃ log v f, Shares 0 paired log v ∧ v.files[0]? = some f
    ∧ (v.handle "x").binding = none ∧ v.Binds "y" 0 ∧ f.toBytes = Bytes.zeros pageSize
    ∧ Serves 0 (.ofBytes [1, 2, 3]) log v f ∧ (v.handle "x").counters = ⟨0, 0, 1⟩ := by
  have hf : paired.files[0]? = some (.ofBytes [1, 2, 3]) := rfl
  have hx : paired.Binds "x" 0 := ⟨⟨0, "f"⟩, rfl, rfl⟩
  obtain ⟨p, hp⟩ : ∃ p : Page, p.bytes = Bytes.zeros pageSize := ⟨⟨_, Bytes.length_zeros _⟩, rfl⟩
  obtain ⟨v, hv, hwent⟩ := through_went hx hf
    (show (FileCall.append p.bytes).perform _ = _ from run_bind Access.run_appendPage)
  have hbinding : (v.handle "x").binding = some ⟨0, "f"⟩ := hwent.binding
  have hclose : closeHandle "x" v = .ok () (v.setHandle "x" { v.handle "x" with binding := none }) := by
    unfold closeHandle
    rw [run_get_bind, hbinding]
    rfl
  have hrun := Shares.closed "x" (Shares.called "x" (.append p.bytes) (Shares.start : Shares 0 paired [] paired))
  rw [hv] at hrun
  simp only [finalState, hclose] at hrun
  have hfile : v.files[0]? = some ((PagedFile.ofBytes [1, 2, 3]).append p) := getElem?_files_set hf hwent.files
  have hlen : ((PagedFile.ofBytes [1, 2, 3]).append p).pages.length = 1 := rfl
  obtain ⟨f, hf', hserves, -⟩ := serves_of_shares hrun hf ⟨_, hfile, by rw [hlen]; decide⟩
  obtain rfl : _ = f := Option.some.inj (hfile.symm.trans hf')
  refine ⟨_, _, _, hrun, hf', ?_, ?_, ?_, hserves, ?_⟩
  · rw [handle_setHandle_self]
  · refine ⟨⟨0, "f"⟩, ?_, rfl⟩
    rw [handle_setHandle_other _ (by decide), hwent.others "y" (by decide)]
    rfl
  · rw [PagedFile.toBytes_append, hp]
    rfl
  · rw [handle_setHandle_self]
    exact hwent.counters

end Volume

end Tablespace
