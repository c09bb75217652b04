import GamePatch.Model.Fnid
import GamePatch.Verification.Detour.Session

/-! # Hooks by library and number

The search for a function goes through memory. Where a table of exports lies there, it
finds what a search through a list of libraries finds, and a detour hooks that. -/

namespace GamePatch.Hooking

open Words Branch PowerPC Simulation PatchCall

/-! ## Libraries -/

/-- A function with its number, the address of its descriptor and the descriptor. -/
structure Exported where
  fnid : UInt32
  opd : UInt32
  descriptor : FunctionDescriptor
  deriving DecidableEq, Repr

structure Library where
  name : List UInt8
  functions : List Exported
  name_ne_zero : 0 ∉ name

/-- The first function of this number in the libraries of this name. -/
def lookup (libs : List Library) (module : List UInt8) (fnid : UInt32) : Option Exported :=
  (libs.flatMap fun lib =>
    if module.takeWhile (· ≠ 0) = lib.name then lib.functions else []).find? (·.fnid = fnid)

/-- The bytes and a zero stand in memory. -/
def TextAt (p : Process) : UInt32 → List UInt8 → Prop
  | address, [] => p.memory address.toNat = 0
  | address, c :: s => p.memory address.toNat = c ∧ TextAt p (address + 1) s

/-- The stub is one of the library. -/
structure Describes (p : Process) (stub : Stub) (lib : Library) : Prop where
  count : stub.count.toInt.toNat = lib.functions.length
  name : TextAt p stub.name lib.name
  fnid : ∀ i, ∀ h : i < lib.functions.length,
    readWord p (stub.fnid + UInt32.ofNat (4 * i)) = lib.functions[i].fnid
  stub : ∀ i, ∀ h : i < lib.functions.length,
    readWord p (stub.stub + UInt32.ofNat (4 * i)) = lib.functions[i].opd
  descriptor : ∀ f ∈ lib.functions, f.opd ≠ 0 →
    readWord p f.opd = f.descriptor.addr ∧ readWord p (f.opd + 4) = f.descriptor.toc

/-- The stubs of the libraries stand one after another, and behind them something that is
no stub. -/
def LaidOut (ssize : UInt16) (size : UInt32) (p : Process) : UInt32 → List Library → Prop
  | address, [] => (readStub p address).ssize ≠ ssize
  | address, lib :: libs =>
      (readStub p address).ssize = ssize ∧ Describes p (readStub p address) lib ∧
        LaidOut ssize size p (address + size) libs

/-! ## The search -/

section

variable {ssize : UInt16} {size : UInt32} {p : Process} {module : List UInt8} {fnid : UInt32}

theorem strcmpAt_eq {name : List UInt8} (hname : 0 ∉ name) :
    ∀ {address : UInt32}, TextAt p address name →
      strcmpAt p module address = decide (module.takeWhile (· ≠ 0) = name) := by
  induction module generalizing name with
  | nil =>
      intro address htext
      cases name with
      | nil =>
          have hcell : p.memory address.toNat = 0 := htext
          simp [strcmpAt, hcell]
      | cons c name =>
          have hc : c ≠ 0 := fun h => hname (h ▸ List.mem_cons_self)
          simp [strcmpAt, htext.1, hc]
  | cons c module ih =>
      intro address htext
      rw [strcmpAt, List.takeWhile_cons]
      cases name with
      | nil =>
          have hcell : p.memory address.toNat = 0 := htext
          by_cases hc : c = 0
          · simp [hcell, hc]
          · simp [hcell, hc, Ne.symm hc]
      | cons c' name =>
          rcases htext with ⟨hcell, hrest⟩
          rw [List.mem_cons, not_or] at hname
          have hc' : c' ≠ 0 := Ne.symm hname.1
          rw [hcell]
          by_cases hc : c' = c
          · subst hc
            rw [if_neg (not_not.2 rfl), if_neg hc', ih hname.2 hrest]
            simp [hc']
          · rw [if_pos hc]
            by_cases hzero : c = 0
            · simp [hzero]
            · simp [hzero, Ne.symm hc]

theorem findFnid_eq {stub : Stub} {lib : Library} (h : Describes p stub lib) {rounds : ℕ} :
    ∀ {i : ℕ}, rounds + i = lib.functions.length →
      findFnid p stub fnid rounds i =
        ((lib.functions.drop i).find? (·.fnid = fnid)).map Exported.opd := by
  induction rounds with
  | zero =>
      intro i hi
      rw [findFnid, List.drop_of_length_le (by omega)]
      rfl
  | succ rounds ih =>
      intro i hi
      have hlt : i < lib.functions.length := by omega
      rw [findFnid, h.fnid i hlt, h.stub i hlt, List.drop_eq_getElem_cons hlt, List.find?_cons,
        ih (by omega)]
      by_cases hfnid : lib.functions[i].fnid = fnid
      · simp [hfnid]
      · simp [hfnid]

/-- The search ends, and finds what `lookup` finds, or nothing. -/
theorem findByName_eq {libs : List Library} {fuel : ℕ} (hfuel : libs.length < fuel) :
    ∀ {address : UInt32}, LaidOut ssize size p address libs →
      findByName ssize size p module fnid fuel address =
        some (((lookup libs module fnid).map Exported.opd).getD 0) := by
  induction libs generalizing fuel with
  | nil =>
      intro address hlaid
      rcases Nat.exists_eq_succ_of_ne_zero (Nat.ne_of_gt hfuel) with ⟨fuel, rfl⟩
      rw [findByName]
      exact if_neg hlaid
  | cons lib libs ih =>
      intro address hlaid
      rcases hlaid with ⟨hssize, hdescribes, hrest⟩
      rcases Nat.exists_eq_succ_of_ne_zero (Nat.ne_of_gt (Nat.zero_lt_of_lt hfuel)) with ⟨fuel, rfl⟩
      rw [List.length_cons] at hfuel
      have hshort : libs.length < fuel := by omega
      have hnext := ih hshort hrest
      have hfound : findFnid p (readStub p address) fnid (readStub p address).count.toInt.toNat 0 =
          (lib.functions.find? (·.fnid = fnid)).map Exported.opd :=
        findFnid_eq hdescribes hdescribes.count
      rw [findByName]
      simp only [hssize, if_true, strcmpAt_eq lib.name_ne_zero hdescribes.name,
        decide_eq_true_eq, hfound, lookup, List.flatMap_cons, List.find?_append]
      by_cases hname : module.takeWhile (· ≠ 0) = lib.name
      · rw [if_pos hname, if_pos hname]
        cases hfirst : lib.functions.find? (·.fnid = fnid) with
        | some f => simp
        | none =>
            simp only [Option.map_none, Option.none_or]
            exact hnext
      · rw [if_neg hname, if_neg hname]
        simp only [List.find?_nil, Option.none_or]
        exact hnext

/-- A function that was found is one of a library in the table. -/
theorem LaidOut.descriptor {libs : List Library} {f : Exported} (hopd : f.opd ≠ 0) :
    ∀ {address : UInt32}, LaidOut ssize size p address libs → lookup libs module fnid = some f →
      readWord p f.opd = f.descriptor.addr ∧ readWord p (f.opd + 4) = f.descriptor.toc := by
  intro address hlaid hlookup
  have hmem := List.mem_of_find?_eq_some hlookup
  clear hlookup
  induction libs generalizing address with
  | nil => cases hmem
  | cons lib libs ih =>
      rw [List.flatMap_cons, List.mem_append] at hmem
      rcases hmem with hmem | hmem
      · split at hmem
        · exact hlaid.2.1.descriptor f hmem hopd
        · cases hmem
      · exact ih hlaid.2.2 hmem

end

/-! ## The table of a process -/

/-- The number that the stubs of a kind start with. -/
def HookType.ssize : HookType → UInt16
  | .imported => 0x2c00
  | .exported => 0x1c00

def HookType.size : HookType → UInt32
  | .imported => 44
  | .exported => 28

/-- As long as the cells are what they were in `memory₀`, there is a table of one kind. -/
structure Table (kind : HookType) (memory₀ : ℕ → UInt8) (cells : ℕ → Prop)
    (libs : List Library) : Prop where
  nonempty : libs ≠ []
  laidOut : ∀ p : Process, (∀ a, cells a → p.memory a = memory₀ a) →
    LaidOut kind.ssize kind.size p (exportAdressTable p) libs

/-- The function that a detour should hook. Functions of the other kind are not found. -/
def sought (kind : HookType) (libs : List Library) (type : HookType) (libaryName : List UInt8)
    (fnid : UInt32) : Option Exported :=
  if type = kind then (lookup libs libaryName fnid).filter (·.opd ≠ 0) else none

variable {kind : HookType} {memory₀ : ℕ → UInt8} {cells : ℕ → Prop} {libs : List Library}
  {fuel : ℕ}

theorem Table.find (h : Table kind memory₀ cells libs) (hfuel : libs.length < fuel) {p : Process}
    (hcells : ∀ a, cells a → p.memory a = memory₀ a) (type : HookType) (module : List UInt8)
    (fnid : UInt32) :
    findByName type.ssize type.size p module fnid fuel (exportAdressTable p) =
      some (((sought kind libs type module fnid).map Exported.opd).getD 0) := by
  have hlaid := h.laidOut p hcells
  by_cases htype : type = kind
  · subst htype
    rw [findByName_eq hfuel hlaid, sought, if_pos rfl]
    cases lookup libs module fnid with
    | none => rfl
    | some f => by_cases hopd : f.opd = 0 <;> simp [Option.filter, hopd]
  · rw [sought, if_neg htype]
    rcases Nat.exists_eq_succ_of_ne_zero (Nat.ne_of_gt (Nat.zero_lt_of_lt hfuel)) with ⟨fuel, rfl⟩
    rcases List.exists_cons_of_ne_nil h.nonempty with ⟨lib, rest, rfl⟩
    have hother : kind.ssize ≠ type.ssize := by
      cases kind <;> cases type <;> first | exact absurd rfl htype | decide
    rw [findByName]
    exact if_neg (hlaid.1 ▸ hother)

theorem hookByFnid_eq (buffer : UInt32) (type : HookType) (libaryName : List UInt8)
    (fnid fnCallback : UInt32) (d : Detour) (e : Engine) :
    hookByFnid buffer type libaryName fnid fnCallback fuel d e =
      (findByName type.ssize type.size e.process libaryName fnid fuel
        (exportAdressTable e.process)).map fun fnOpd =>
          if fnOpd = 0 then (d, e)
          else hook buffer (readWord e.process fnOpd) fnCallback
            (readWord e.process (fnOpd + 4)) d e := by
  have hfound (found : Option UInt32) :
      (found.bind fun fnOpd =>
        if fnOpd = 0 then some (d, e)
        else some (hook buffer (readWord e.process fnOpd) fnCallback
          (readWord e.process (fnOpd + 4)) d e)) =
        found.map fun fnOpd =>
          if fnOpd = 0 then (d, e)
          else hook buffer (readWord e.process fnOpd) fnCallback
            (readWord e.process (fnOpd + 4)) d e := by
    cases found with
    | none => rfl
    | some fnOpd => by_cases hopd : fnOpd = 0 <;> simp [hopd]
  cases type with
  | imported => exact hfound _
  | exported => exact hfound _

/-- Where the table is, a detour by number is one of the function sought. -/
theorem Table.hookByFnid_eq (h : Table kind memory₀ cells libs) (hfuel : libs.length < fuel)
    {e : Engine} (hcells : ∀ a, cells a → e.process.memory a = memory₀ a) (buffer : UInt32)
    (type : HookType) (libaryName : List UInt8) (fnid fnCallback : UInt32) (d : Detour) :
    hookByFnid buffer type libaryName fnid fnCallback fuel d e =
      match sought kind libs type libaryName fnid with
      | none => some (d, e)
      | some f => some (hook buffer f.descriptor.addr fnCallback f.descriptor.toc d e) := by
  rw [Hooking.hookByFnid_eq, h.find hfuel hcells]
  cases hsought : sought kind libs type libaryName fnid with
  | none => rfl
  | some f =>
      have hlookup : type = kind ∧ lookup libs libaryName fnid = some f ∧ f.opd ≠ 0 := by
        simpa [sought, Option.filter_eq_some_iff] using hsought
      rcases hlookup with ⟨rfl, hlookup, hopd⟩
      rcases (h.laidOut e.process hcells).descriptor hopd hlookup with ⟨haddr, htoc⟩
      simp [hopd, haddr, htoc]

/-! ## Sessions -/

/-- The functions that detours have hooked, each with the address of the callback's
descriptor. -/
abbrev Holdings := ℕ → Option (Exported × UInt32)

/-- What an action should do: `Hook` and `UnHook` of a detour by number do nothing. -/
def holdStep (kind : HookType) (libs : List Library) (held : Holdings) : FnidAction → Holdings
  | .construct id type libaryName fnid fnCallback =>
      Function.update held id
        ((sought kind libs type libaryName fnid).map fun f => (f, fnCallback))
  | .hook .. => held
  | .unHook _ => held
  | .destroy id => Function.update held id none

/-- The function can be hooked besides those that are, and away from the table. The
callback's descriptor is one of the cells that stay. -/
structure Constructible (buffer : UInt32) (cells : ℕ → Prop) (held : Holdings) (f : Exported)
    (fnCallback : UInt32) : Prop where
  nonzero : f.descriptor.addr ≠ 0
  bound : f.descriptor.addr.toNat + 16 < 0x100000000
  outside : Store.Apart f.descriptor.addr.toNat 16 buffer.toNat 2048
  table : ∀ a, cells a → a < f.descriptor.addr.toNat ∨ f.descriptor.addr.toNat + 16 ≤ a
  callback : ∀ j < 4, cells (fnCallback.toNat + j)
  apart : ∀ i g callback, held i = some (g, callback) →
    Store.Apart f.descriptor.addr.toNat 16 g.descriptor.addr.toNat 16

def FnidAllowed (kind : HookType) (libs : List Library) (buffer : UInt32) (cells : ℕ → Prop)
    (held : Holdings) : FnidAction → Prop
  | .construct id type libaryName fnid fnCallback =>
      held id = none ∧ ∀ f, sought kind libs type libaryName fnid = some f →
        Constructible buffer cells held f fnCallback
  | _ => True

/-- Every action is allowed with what is hooked then. -/
def AllFnidAllowed (kind : HookType) (libs : List Library) (buffer : UInt32)
    (cells : ℕ → Prop) : Holdings → List FnidAction → Prop
  | _, [] => True
  | held, a :: actions => FnidAllowed kind libs buffer cells held a ∧
      AllFnidAllowed kind libs buffer cells (holdStep kind libs held a) actions

/-- The detour has hooked the function for the callback. -/
structure Hooks (memory₀ : ℕ → UInt8) (f : Exported) (fnCallback : UInt32) (d : Detour) :
    Prop where
  active : d.Active
  address : d.hookAddress = f.descriptor.addr
  target : d.hookTarget = wordAt memory₀ fnCallback.toNat
  toc : f.descriptor.toc ≠ 0 → d.trampolineOpd.toc = f.descriptor.toc

/-- The detours are those of the functions held. -/
structure Tracks (memory₀ : ℕ → UInt8) (buffer : UInt32) (cells : ℕ → Prop) (held : Holdings)
    (s : Session) : Prop where
  consistent : Consistent memory₀ buffer s
  free : ∀ id, held id = none → ¬ (s.detours id).Active
  hooks : ∀ id f fnCallback, held id = some (f, fnCallback) →
    Hooks memory₀ f fnCallback (s.detours id)
  table : ∀ id f fnCallback, held id = some (f, fnCallback) → ∀ a, cells a →
    a < f.descriptor.addr.toNat ∨ f.descriptor.addr.toNat + 16 ≤ a

variable {buffer : UInt32} {held : Holdings} {s : Session}

theorem Tracks.memory_cells (h : Tracks memory₀ buffer cells held s)
    (houtside : ∀ a, cells a → a < buffer.toNat ∨ buffer.toNat + 2048 ≤ a) {a : ℕ}
    (ha : cells a) : s.engine.process.memory a = memory₀ a := by
  apply h.consistent.rest a (houtside a ha)
  intro id hid
  cases hheld : held id with
  | none => exact absurd hid (h.free id hheld)
  | some holding =>
      rcases holding with ⟨f, fnCallback⟩
      rw [(h.hooks id f fnCallback hheld).address]
      exact h.table id f fnCallback hheld a ha

/-- A detour that is not in use is given a new object. -/
theorem Tracks.release (h : Tracks memory₀ buffer cells held s) (id : ℕ) :
    Tracks memory₀ buffer cells (Function.update held id none)
      (perform buffer s (.destroy id)) := by
  have hother {i : ℕ} {holding : Exported × UInt32}
      (hi : Function.update held id none i = some holding) : i ≠ id ∧ held i = some holding := by
    by_cases hid : i = id
    · rw [hid, Function.update_self] at hi
      cases hi
    · exact ⟨hid, by rwa [Function.update_of_ne hid] at hi⟩
  refine ⟨consistent_release id h.consistent not_active_init, fun i hi => ?_,
    fun i f fnCallback hi => ?_, fun i f fnCallback hi => ?_⟩
  · by_cases hid : i = id
    · rw [hid, perform, Session.set_self]
      exact not_active_init
    · rw [Function.update_of_ne hid] at hi
      rw [perform, Session.set_of_ne s hid]
      exact h.free i hi
  · rcases hother hi with ⟨hid, hi⟩
    rw [perform, Session.set_of_ne s hid]
    exact h.hooks i f fnCallback hi
  · exact h.table i f fnCallback (hother hi).2

theorem perform_hook_init (s : Session) {id : ℕ} (hfree : ¬ (s.detours id).Active)
    (fn fnCallback toc : UInt32) :
    perform buffer (perform buffer s (.destroy id)) (.hook id fn fnCallback toc) =
      s.set id (hook buffer fn fnCallback toc .init s.engine).1
        (hook buffer fn fnCallback toc .init s.engine).2 := by
  have hdestroy : perform buffer s (.destroy id) = s.set id .init s.engine := by
    rw [perform, unHook_of_not_active hfree]
  rw [hdestroy, perform, Session.set_self]
  simp only [Session.set, Session.mk.injEq, and_true]
  funext i
  split <;> rfl

/-- A detour is constructed for a function that can be hooked. -/
theorem Tracks.hook (h : Tracks memory₀ buffer cells held s)
    (houtside : ∀ a, cells a → a < buffer.toNat ∨ buffer.toNat + 2048 ≤ a)
    (hbuffer : buffer.toNat + 2048 < 0x100000000)
    (hspace : s.engine.trampolineSize + 120 ≤ 2048) {id : ℕ} (hfree : held id = none)
    {f : Exported} {fnCallback : UInt32} (hf : Constructible buffer cells held f fnCallback) :
    Tracks memory₀ buffer cells (Function.update held id (some (f, fnCallback)))
      (s.set id
        (hook buffer f.descriptor.addr fnCallback f.descriptor.toc .init s.engine).1
        (hook buffer f.descriptor.addr fnCallback f.descriptor.toc .init s.engine).2) := by
  have hinactive := h.free id hfree
  have hready : Ready buffer (perform buffer s (.destroy id)) id f.descriptor.addr := by
    refine ⟨?_, hf.nonzero, hf.bound, hf.outside, fun j hj => ?_⟩
    · rw [perform, Session.set_self]
      exact not_active_init
    · by_cases hid : j = id
      · rw [hid, perform, Session.set_self] at hj
        exact absurd hj not_active_init
      · rw [perform, Session.set_of_ne s hid] at hj ⊢
        cases hheld : held j with
        | none => exact absurd hj (h.free j hheld)
        | some holding =>
            rcases holding with ⟨g, callback⟩
            rw [(h.hooks j g callback hheld).address]
            exact hf.apart j g callback hheld
  have hsame : (perform buffer s (.destroy id)).engine = s.engine := by
    rw [perform, unHook_of_not_active hinactive]
    rfl
  have hconsistent := consistent_hook fnCallback f.descriptor.toc
    (h.release id).consistent hbuffer (hsame ▸ hspace) hready
  rw [perform_hook_init s hinactive] at hconsistent
  have hfits : Fits buffer f.descriptor.addr s.engine := by
    have hapart := hf.outside
    refine ⟨by omega, hf.bound, ?_⟩
    rw [Store.Apart] at hapart ⊢
    omega
  have hinstalled := hook_installed fnCallback f.descriptor.toc .init hfits
  have htarget : readWord s.engine.process fnCallback = wordAt memory₀ fnCallback.toNat := by
    rw [readWord_eq]
    exact wordAt_congr fun j hj => h.memory_cells houtside (hf.callback j hj)
  refine ⟨hconsistent, fun i hi => ?_, fun i g callback hi => ?_, fun i g callback hi => ?_⟩
  · have hid : i ≠ id := by
      rintro rfl
      rw [Function.update_self] at hi
      cases hi
    rw [Function.update_of_ne hid] at hi
    rw [Session.set_of_ne s hid]
    exact h.free i hi
  · by_cases hid : i = id
    · subst hid
      rw [Function.update_self, Option.some_inj, Prod.mk.injEq] at hi
      rcases hi with ⟨rfl, rfl⟩
      rw [Session.set_self]
      refine ⟨?_, hinstalled.address, hinstalled.target.trans htarget, fun htoc => ?_⟩
      · rw [Detour.Active, hinstalled.address, hinstalled.length]
        exact ⟨hf.nonzero, by decide⟩
      · rw [hook_eq]
        exact if_pos htoc
    · rw [Function.update_of_ne hid] at hi
      rw [Session.set_of_ne s hid]
      exact h.hooks i g callback hi
  · by_cases hid : i = id
    · subst hid
      rw [Function.update_self, Option.some_inj, Prod.mk.injEq] at hi
      rcases hi with ⟨rfl, rfl⟩
      exact hf.table
    · rw [Function.update_of_ne hid] at hi
      exact h.table i g callback hi

def FnidAction.isConstruct : FnidAction → Bool
  | .construct .. => true
  | _ => false

/-- One action does to the session what it should do to the functions held. -/
theorem Tracks.step (h : Tracks memory₀ buffer cells held s)
    (htable : Table kind memory₀ cells libs) (hfuel : libs.length < fuel)
    (houtside : ∀ a, cells a → a < buffer.toNat ∨ buffer.toNat + 2048 ≤ a)
    (hbuffer : buffer.toNat + 2048 < 0x100000000) {a : FnidAction}
    (hallowed : FnidAllowed kind libs buffer cells held a)
    (hspace : s.engine.trampolineSize + (if a.isConstruct then 120 else 0) ≤ 2048) :
    ∃ s', performFnid buffer fuel s a = some s' ∧
      Tracks memory₀ buffer cells (holdStep kind libs held a) s' ∧
      s'.engine.trampolineSize ≤
        s.engine.trampolineSize + (if a.isConstruct then 120 else 0) := by
  cases a with
  | construct id type libaryName fnid fnCallback =>
      rcases hallowed with ⟨hfree, hconstructible⟩
      have hinactive := h.free id hfree
      have heq := htable.hookByFnid_eq hfuel (fun a ha => h.memory_cells houtside ha) buffer type
        libaryName fnid fnCallback .init
      rw [performFnid, heq]
      simp only [holdStep]
      cases hsought : sought kind libs type libaryName fnid with
      | none =>
          have hrelease := h.release id
          rw [perform, unHook_of_not_active hinactive] at hrelease
          exact ⟨_, rfl, hrelease, Nat.le_add_right _ _⟩
      | some f =>
          have hsize := (trampolineSize_perform buffer s
            (.hook id f.descriptor.addr fnCallback f.descriptor.toc)).2
          rw [perform, hook_eq] at hsize
          refine ⟨_, rfl, h.hook houtside hbuffer hspace hfree (hconstructible f hsought), ?_⟩
          rw [hook_eq]
          exact hsize
  | hook id fnAddress fnCallback tocOverride => exact ⟨s, rfl, h, Nat.le_add_right _ _⟩
  | unHook id => exact ⟨s, rfl, h, Nat.le_add_right _ _⟩
  | destroy id =>
      exact ⟨_, rfl, h.release id, (trampolineSize_perform buffer s (.destroy id)).2⟩

/-- A run of actions does to the session what it should do to the functions held. -/
theorem Tracks.run (htable : Table kind memory₀ cells libs) (hfuel : libs.length < fuel)
    (houtside : ∀ a, cells a → a < buffer.toNat ∨ buffer.toNat + 2048 ≤ a)
    (hbuffer : buffer.toNat + 2048 < 0x100000000) (actions : List FnidAction)
    (h : Tracks memory₀ buffer cells held s)
    (hallowed : AllFnidAllowed kind libs buffer cells held actions)
    (hspace : s.engine.trampolineSize + 120 * actions.countP FnidAction.isConstruct ≤ 2048) :
    ∃ s', actions.foldlM (performFnid buffer fuel) s = some s' ∧
      Tracks memory₀ buffer cells (actions.foldl (holdStep kind libs) held) s' := by
  induction actions generalizing held s with
  | nil => exact ⟨s, rfl, h⟩
  | cons a actions ih =>
      rcases hallowed with ⟨ha, hrest⟩
      rw [List.countP_cons] at hspace
      have hcost : (if a.isConstruct then 120 else 0) =
          120 * (if a.isConstruct = true then 1 else 0) := by split <;> rfl
      obtain ⟨mid, hmid, htracks, hsize⟩ :=
        h.step htable hfuel houtside hbuffer ha (by omega)
      rcases ih htracks hrest (by omega) with ⟨s', hrun, htracks'⟩
      exact ⟨s', Runs.foldlM_cons_eq_some.mpr ⟨mid, hmid, hrun⟩, htracks'⟩

/-- What the detours by number have done to a process. -/
structure HooksByFnid (memory₀ : ℕ → UInt8) (buffer : UInt32) (held : Holdings) (s : Session) :
    Prop where
  hooks : ∀ id f fnCallback, held id = some (f, fnCallback) →
    Hooks memory₀ f fnCallback (s.detours id)
  redirects : ∀ id f fnCallback, held id = some (f, fnCallback) →
    ∀ (other : UInt32 → Machine → Option Machine) (m : Machine),
      m.pc = f.descriptor.addr.toUInt64 → m.memory = s.engine.process.memory →
      ∃ m', run (step other) 4 m = some m' ∧ Redirected (wordAt memory₀ fnCallback.toNat) m m'
  rest : ∀ a, (a < buffer.toNat ∨ buffer.toNat + 2048 ≤ a) →
    (∀ id f fnCallback, held id = some (f, fnCallback) →
      a < f.descriptor.addr.toNat ∨ f.descriptor.addr.toNat + 16 ≤ a) →
    s.engine.process.memory a = memory₀ a

theorem Tracks.hooksByFnid (h : Tracks memory₀ buffer cells held s) :
    HooksByFnid memory₀ buffer held s := by
  refine ⟨h.hooks, fun id f fnCallback hheld other m hpc hmemory => ?_, fun a ha hfree => ?_⟩
  · have hhooks := h.hooks id f fnCallback hheld
    have hentry := h.consistent.entry id hhooks.active
    have hjump := hentry.jump
    have hbound := hentry.bound
    have hpc' : m.pc.toNat = (s.detours id).hookAddress.toNat := by
      rw [hpc, UInt32.toNat_toUInt64, hhooks.address]
    rw [← hmemory, ← hpc', hhooks.target] at hjump
    exact jump_redirects other _ hjump (by omega)
  · apply h.consistent.rest a ha
    intro id hid
    cases hheld : held id with
    | none => exact absurd hid (h.free id hheld)
    | some holding =>
        rcases holding with ⟨f, fnCallback⟩
        rw [(h.hooks id f fnCallback hheld).address]
        exact hfree id f fnCallback hheld

/-- Detours by library and number hook the first function of that number in the table, if
it is a table of their kind, and keep it until they are destroyed: calls of their `Hook`
and `UnHook` change nothing, and a destructor puts the bytes back. -/
theorem hooks_by_fnid (htable : Table kind s.engine.process.memory cells libs)
    (hfuel : libs.length < fuel)
    (houtside : ∀ a, cells a → a < buffer.toNat ∨ buffer.toNat + 2048 ≤ a)
    (hbuffer : buffer.toNat + 2048 < 0x100000000) (hfresh : Fresh s) {actions : List FnidAction}
    (hallowed : AllFnidAllowed kind libs buffer cells (fun _ => none) actions)
    (hcount : actions.countP FnidAction.isConstruct ≤ 17) :
    ∃ s', actions.foldlM (performFnid buffer fuel) s = some s' ∧
      HooksByFnid s.engine.process.memory buffer
        (actions.foldl (holdStep kind libs) fun _ => none) s' := by
  have hempty := hfresh.empty
  have hstart : Tracks s.engine.process.memory buffer cells (fun _ => none) s :=
    ⟨hfresh.consistent buffer, fun id _ => hfresh.inactive id, fun _ _ _ h => (nomatch h),
      fun _ _ _ h => (nomatch h)⟩
  obtain ⟨s', hrun, htracks⟩ :=
    Tracks.run htable hfuel houtside hbuffer actions hstart hallowed (by omega)
  exact ⟨s', hrun, htracks.hooksByFnid⟩

/-- The stub of the library `a` with one function, whose number is 7. -/
def tableMemory : ℕ → UInt8 :=
  Store.writeAll (fun _ => 0)
    [(0x1008c, bytes [0x1000]), (0x1984, bytes [0x2000]),
      (0x2000, bytes [0x1c000000, 1, 0, 0, 0x3000, 0x3010, 0x3020]), (0x3000, [0x61]),
      (0x3010, bytes [7]), (0x3020, bytes [0x3030]), (0x3030, bytes [0x30000, 0x55])]

def oneLibrary : List Library := [⟨[0x61], [⟨7, 0x3030, ⟨0x30000, 0x55⟩⟩], by decide⟩]

/-- The cells that the table and its pointers stand in, and a callback's descriptor. -/
def tableCells (a : ℕ) : Prop := a < 0x11000

theorem table_oneLibrary : Table .exported tableMemory tableCells oneLibrary := by
  refine ⟨by simp [oneLibrary], fun p hcells => ?_⟩
  have hword (address : UInt32) (h : address.toNat + 4 ≤ 0x11000) :
      readWord p address = wordAt tableMemory address.toNat := by
    rw [readWord_eq]
    exact wordAt_congr fun j hj => hcells _ (show address.toNat + j < 0x11000 by omega)
  have hhalf (address : UInt32) (h : address.toNat + 2 ≤ 0x11000) :
      readHalf p address = UInt16.ofNat
        (ByteOrder.big.decode (Store.read tableMemory address.toNat 2)) := by
    rw [readHalf, Store.read_congr fun j hj => hcells _ (show address.toNat + j < 0x11000 by omega)]
  have haddress : exportAdressTable p = 0x2000 := by
    rw [exportAdressTable, hword 0x1008c (by decide)]
    exact (hword _ (by decide +kernel)).trans (by decide +kernel)
  have hstub : readStub p 0x2000 = ⟨0x1c00, 1, 0x3000, 0x3010, 0x3020⟩ := by
    rw [readStub, hhalf _ (by decide), hhalf _ (by decide), hword _ (by decide),
      hword _ (by decide), hword _ (by decide)]
    decide +kernel
  have hend : (readStub p 0x201c).ssize = 0 := by
    exact (hhalf 0x201c (by decide)).trans (by decide +kernel)
  have hname : TextAt p 0x3000 [0x61] :=
    ⟨(hcells 0x3000 (by simp [tableCells])).trans (by decide +kernel),
      (hcells 0x3001 (by simp [tableCells])).trans (by decide +kernel)⟩
  rw [haddress, oneLibrary, LaidOut, hstub]
  refine ⟨rfl, ⟨by decide, hname, ?_, ?_, ?_⟩, ?_⟩
  · intro i hi
    obtain rfl : i = 0 := Nat.lt_one_iff.mp hi
    exact (hword 0x3010 (by decide)).trans
      (show wordAt tableMemory 0x3010 = 7 by decide +kernel)
  · intro i hi
    obtain rfl : i = 0 := Nat.lt_one_iff.mp hi
    exact (hword 0x3020 (by decide)).trans
      (show wordAt tableMemory 0x3020 = 0x3030 by decide +kernel)
  · intro f hf _
    obtain rfl := List.mem_singleton.mp hf
    exact ⟨(hword 0x3030 (by decide)).trans (by decide +kernel),
      (hword 0x3034 (by decide)).trans (by decide +kernel)⟩
  · change (readStub p 0x201c).ssize ≠ 0x1c00
    rw [hend]
    decide

theorem hooks_by_fnid_one :
    ∃ s', [FnidAction.construct 0 .exported [0x61] 7 0x10000, .unHook 0].foldlM
        (performFnid 0x20000 2) (idle tableMemory) = some s' ∧
      HooksByFnid tableMemory 0x20000
        ([FnidAction.construct 0 .exported [0x61] 7 0x10000, .unHook 0].foldl
          (holdStep .exported oneLibrary) fun _ => none) s' := by
  have hsought : ∀ f, sought .exported oneLibrary .exported [0x61] 7 = some f →
      Constructible 0x20000 tableCells (fun _ => none) f 0x10000 := by
    intro f hf
    obtain rfl : ⟨7, 0x3030, ⟨0x30000, 0x55⟩⟩ = f := Option.some.inj hf
    refine ⟨by decide, by decide, .inr (by decide), fun a ha => .inl ?_, fun j hj => ?_,
      fun _ _ _ h => (nomatch h)⟩
    · exact Nat.lt_trans ha (by decide)
    · exact Nat.lt_trans (Nat.add_lt_add_left hj 0x10000) (by decide)
  exact hooks_by_fnid (s := idle tableMemory) table_oneLibrary (by decide)
    (fun a ha => .inl (Nat.lt_trans ha (by decide))) (by decide) (fresh_idle _)
    ⟨⟨rfl, hsought⟩, trivial, trivial⟩ (by decide)

end GamePatch.Hooking
