import Rapp.HttpRequest
import Rapp.Lib.Books

/-!
# Containers and their plugins

`container.c`: a plugin is opened, asked for its version and made into a
container, which is served from and destroyed. What `dlopen`, `dlsym`, the
allocator and the functions of the plugin answer are inputs. Beside the
containers the model records every call of a plugin and every resource that is
taken or given back.
-/
namespace Rapp

open CallOutcome (Outcome run Guarded Always Admitted)
open ResourceBooks (Effect Held Allowed Account Books)
open ByteBlock

/-- `ABI_VERSION` -/
abbrev abiVersion : Int := 1

/-- What `dlsym` finds: an error, NULL, which is no error, or a function. -/
inductive Symbol where
  | missing
  | null
  | function
  deriving DecidableEq

inductive PluginFunction where
  | rappGetAbiVersion
  | rappCreate
  | rappServe
  | rappDestroy
  | rappInit
  deriving DecidableEq

/-- A container that `container_new_custom` makes has no plugin. `name` is left
out: only texts of the log are made of it. -/
structure LoadedContainer where
  address : Nat
  plugin : Option Nat
  handle : Nat
  serve : Symbol
  destroy : Symbol
  init : Symbol
  deriving DecidableEq

/-- An open plugin, the memory of a container and of its name, and what
`rapp_create` has made. -/
inductive Resource where
  | plugin (plugin : Nat)
  | container (address : Nat)
  | name (address : Nat)
  | handle (plugin handle : Nat)
  deriving DecidableEq

/-- Calls of the loader, of the allocator and of plugin code. -/
inductive LoaderEvent where
  | dlopen (plugin : Nat)
  | dlclose (plugin : Nat)
  | memoryCreate (address : Nat)
  | memoryStrdup (address : Nat)
  | destroyName (address : Nat)
  | destroyContainer (address : Nat)
  | rappGetAbiVersion (plugin : Nat) (version : Int)
  | rappCreate (plugin : Nat) (created : Option Nat)
  | rappInit (plugin handle : Nat)
  | rappServe (plugin handle : Nat)
  | rappDestroy (plugin handle : Nat) (result : Int)
  deriving DecidableEq

/-- A plugin whose `rapp_destroy` returns 0 has freed its handle. -/
def LoaderEvent.effect : LoaderEvent → Effect Resource
  | dlopen plugin => .takes (.plugin plugin)
  | dlclose plugin => .gives (.plugin plugin)
  | memoryCreate address => .takes (.container address)
  | memoryStrdup address => .takes (.name address)
  | destroyName address => .gives (.name address)
  | destroyContainer address => .gives (.container address)
  | rappCreate plugin (some handle) => .takes (.handle plugin handle)
  | rappDestroy plugin handle 0 => .gives (.handle plugin handle)
  | _ => .none

structure Loader where
  containers : List LoadedContainer
  trace : List LoaderEvent

/-- What is asked for while a plugin is loaded. -/
structure LoadAnswers where
  opened : Option Nat
  symbols : PluginFunction → Symbol
  version : Int
  memory : Option Nat
  named : Bool
  created : Option Nat

inductive LoaderFault where
  | nullFunction (function : PluginFunction)
  | noContainer (address : Nat)
  deriving DecidableEq

namespace Loader

def new : Loader := ⟨[], []⟩

def note (e : LoaderEvent) (s : Loader) : Loader := { s with trace := s.trace ++ [e] }

@[simp] theorem note_containers (e : LoaderEvent) (s : Loader) :
    (s.note e).containers = s.containers := rfl
@[simp] theorem note_trace (e : LoaderEvent) (s : Loader) : (s.note e).trace = s.trace ++ [e] := rfl

def IsHeld (s : Loader) (r : Resource) : Prop := Held LoaderEvent.effect s.trace r

instance (s : Loader) (r : Resource) : Decidable (s.IsHeld r) :=
  inferInstanceAs (Decidable (Held _ _ _))

/-- Memory that is in use is no answer of `calloc`. -/
def memoryCreate (answer : Option Nat) (s : Loader) : Option Nat :=
  answer.filter fun address => !decide (s.IsHeld (.container address))

def isAbiCompatible (coreAbi pluginAbi : Int) : Bool := coreAbi == pluginAbi

/-- The symbols of a container that are looked up when its handle is there. -/
def callbacks : List PluginFunction := [.rappServe, .rappDestroy, .rappInit]

def containerMake (plugin : Nat) (answers : LoadAnswers) (s : Loader) :
    Outcome LoaderFault (Option Nat × Loader) :=
  if answers.symbols .rappCreate = .missing then .ok (none, s)
  else match s.memoryCreate answers.memory with
    | none => .ok (none, s)
    | some address =>
      let s := s.note (.memoryCreate address)
      if !answers.named then .ok (none, s.note (.destroyContainer address))
      else if answers.symbols .rappCreate = .null then .undefined (.nullFunction .rappCreate)
      else
        let s := (s.note (.memoryStrdup address)).note (.rappCreate plugin answers.created)
        match answers.created with
        | none => .ok (none, (s.note (.destroyName address)).note (.destroyContainer address))
        | some handle =>
          if callbacks.any fun function => answers.symbols function = .missing then .ok (none, s)
          else .ok (some address, { s with
            containers := ⟨address, some plugin, handle, answers.symbols .rappServe,
              answers.symbols .rappDestroy, answers.symbols .rappInit⟩ :: s.containers })

def containerNew (answers : LoadAnswers) (s : Loader) :
    Outcome LoaderFault (Option Nat × Loader) :=
  match answers.opened with
  | none => .ok (none, s)
  | some plugin =>
    let s := s.note (.dlopen plugin)
    match answers.symbols .rappGetAbiVersion with
    | .missing => .ok (none, s.note (.dlclose plugin))
    | .null => .undefined (.nullFunction .rappGetAbiVersion)
    | .function =>
      let s := s.note (.rappGetAbiVersion plugin answers.version)
      if isAbiCompatible abiVersion answers.version then s.containerMake plugin answers
      else .ok (none, s.note (.dlclose plugin))

/-- `container_new_custom`; its callbacks are not NULL, as it asserts. -/
def containerNewCustom (memory : Option Nat) (named : Bool) (userData : Nat) (s : Loader) :
    Option Nat × Loader :=
  match s.memoryCreate memory with
  | none => (none, s)
  | some address =>
    let s := s.note (.memoryCreate address)
    if named then
      let s := s.note (.memoryStrdup address)
      (some address, { s with
        containers := ⟨address, none, userData, .function, .function, .function⟩ :: s.containers })
    else (none, s.note (.destroyContainer address))

/-- A call through a pointer of the container, which for a plugin is its code. -/
def call (symbol : Symbol) (function : PluginFunction) (plugin : Option Nat)
    (e : Nat → LoaderEvent) (s : Loader) : Outcome LoaderFault Loader :=
  match symbol with
  | .function => .ok (plugin.elim s fun plugin => s.note (e plugin))
  | _ => .undefined (.nullFunction function)

def find (address : Nat) (s : Loader) : Option LoadedContainer :=
  s.containers.find? fun c => c.address = address

def containerInit (c : LoadedContainer) (s : Loader) : Outcome LoaderFault Loader :=
  s.call c.init .rappInit c.plugin fun plugin => .rappInit plugin c.handle

def containerServe (c : LoadedContainer) (s : Loader) : Outcome LoaderFault Loader :=
  s.call c.serve .rappServe c.plugin fun plugin => .rappServe plugin c.handle

def containerDestroy (c : LoadedContainer) (result : Int) (s : Loader) :
    Outcome LoaderFault Loader :=
  (s.call c.destroy .rappDestroy c.plugin fun plugin =>
    .rappDestroy plugin c.handle result).map fun s =>
      if result = 0 then
        let s := c.plugin.elim s fun plugin => s.note (.dlclose plugin)
        let s := (s.note (.destroyName c.address)).note (.destroyContainer c.address)
        { s with containers := s.containers.erase c }
      else s

end Loader

inductive LoaderCall where
  | containerNew (answers : LoadAnswers)
  | containerNewCustom (memory : Option Nat) (named : Bool) (userData : Nat)
  | containerInit (address : Nat)
  | containerServe (address : Nat)
  | containerDestroy (address : Nat) (result : Int)

namespace Loader

/-- A call on a container that is there. -/
def withContainer (address : Nat) (f : LoadedContainer → Loader → Outcome LoaderFault Loader)
    (s : Loader) : Outcome LoaderFault Loader :=
  match s.find address with
  | some c => f c s
  | none => .undefined (.noContainer address)

def step (i : LoaderCall) (s : Loader) : Outcome LoaderFault Loader :=
  match i with
  | .containerNew answers => (s.containerNew answers).map Prod.snd
  | .containerNewCustom memory named userData =>
    .ok (s.containerNewCustom memory named userData).2
  | .containerInit address => s.withContainer address containerInit
  | .containerServe address => s.withContainer address containerServe
  | .containerDestroy address result => s.withContainer address fun c => containerDestroy c result

/-! ### What may be called when -/

/-- The plugin that was asked for its version last, and what it answered. -/
def lastVersion (trace : List LoaderEvent) : Option (Nat × Int) :=
  trace.reverse.findSome? fun e =>
    match e with
    | .rappGetAbiVersion plugin version => some (plugin, version)
    | _ => none

/-- Plugin code runs while the plugin is open; it creates when it has just given the
right version, and its handle is used from then until it is destroyed. -/
def Rule (trace : List LoaderEvent) (e : LoaderEvent) : Prop :=
  let held := Held LoaderEvent.effect trace
  match e with
  | .rappGetAbiVersion plugin _ => held (.plugin plugin)
  | .rappCreate plugin _ => held (.plugin plugin) ∧ lastVersion trace = some (plugin, abiVersion)
  | .rappInit plugin handle => held (.plugin plugin) ∧ held (.handle plugin handle)
  | .rappServe plugin handle => held (.plugin plugin) ∧ held (.handle plugin handle)
  | .rappDestroy plugin handle _ => held (.plugin plugin) ∧ held (.handle plugin handle)
  | .memoryCreate address => ¬ held (.container address)
  | _ => True

end Loader

/-- What a container has, and gives back when it is destroyed. -/
def LoadedContainer.resources (c : LoadedContainer) : List Resource :=
  (c.plugin.elim [] fun plugin => [.handle plugin c.handle, .plugin plugin]) ++
    [.name c.address, .container c.address]

namespace Loader

def owned (s : Loader) : List Resource := s.containers.flatMap LoadedContainer.resources

/-- The books: what the containers have, and what else is held. -/
def Accounts (extra : List Resource) (s : Loader) : Prop :=
  Account LoaderEvent.effect Rule (s.owned ++ extra) s.trace

/-- What `container_make` leaves behind: it does not close the plugin, and when a
callback is missing behind `rapp_create` it gives nothing back at all. -/
def makeLeaves (s : Loader) (plugin : Nat) (answers : LoadAnswers) : List Resource :=
  if answers.symbols .rappCreate = .missing then [.plugin plugin]
  else match s.memoryCreate answers.memory with
    | none => [.plugin plugin]
    | some address =>
      if !answers.named then [.plugin plugin]
      else if answers.symbols .rappCreate = .null then []
      else match answers.created with
        | none => [.plugin plugin]
        | some handle =>
          if callbacks.any fun function => answers.symbols function = .missing then
            [.handle plugin handle, .name address, .container address, .plugin plugin]
          else []

/-- What a call leaves behind that no container has. -/
def leaves (s : Loader) : LoaderCall → List Resource
  | .containerNew answers =>
    match answers.opened with
    | none => []
    | some plugin =>
      if answers.symbols .rappGetAbiVersion = .function ∧ answers.version = abiVersion then
        s.makeLeaves plugin answers
      else []
  | _ => []

/-- What the calls of a run leave behind. -/
def leavesAlong : List LoaderCall → Loader → List Resource
  | [], _ => []
  | i :: is, s => ((s.step i).toOption.elim [] (leavesAlong is)) ++ s.leaves i

/-- The plugin has the right version, and still no container comes of it. -/
def Strands (s : Loader) (answers : LoadAnswers) : Prop :=
  answers.opened ≠ none ∧ answers.symbols .rappGetAbiVersion = .function ∧
  answers.version = abiVersion ∧
  (answers.symbols .rappCreate = .missing ∨ s.memoryCreate answers.memory = none ∨
    answers.named = false ∨ (answers.symbols .rappCreate = .function ∧
      (answers.created = none ∨ ∃ function ∈ callbacks, answers.symbols function = .missing)))

theorem lastVersion_concat {trace : List LoaderEvent} {e : LoaderEvent}
    (he : ∀ plugin version, e ≠ .rappGetAbiVersion plugin version) :
    lastVersion (trace ++ [e]) = lastVersion trace := by
  rw [lastVersion, List.reverse_append, List.reverse_singleton, List.singleton_append,
    List.findSome?_cons]
  cases e
  case rappGetAbiVersion plugin version => exact absurd rfl (he plugin version)
  all_goals rfl

theorem memoryCreate_eq_some {s : Loader} {answer : Option Nat} {address : Nat}
    (h : s.memoryCreate answer = some address) :
    answer = some address ∧ ¬ s.IsHeld (.container address) := by
  obtain ⟨hanswer, hfree⟩ := Option.filter_eq_some_iff.mp h
  exact ⟨hanswer, by simpa using hfree⟩

/-- Nothing of the allocator's is taken or given back in between. -/
theorem memoryCreate_note {s : Loader} {e : LoaderEvent}
    (he : ∀ address, e.effect ≠ .takes (.container address) ∧
      e.effect ≠ .gives (.container address)) (answer : Option Nat) :
    (s.note e).memoryCreate answer = s.memoryCreate answer := by
  have hheld : ∀ address, (s.note e).IsHeld (.container address) ↔
      s.IsHeld (.container address) := by
    intro address
    simp [IsHeld, Held, he address]
  simp only [memoryCreate, hheld]

/-- What a load has taken, in the order of the container's own list. -/
theorem made_perm (plugin handle address : Nat) :
    ([.handle plugin handle, .name address, .container address, .plugin plugin] :
      List Resource).Perm
      [.handle plugin handle, .plugin plugin, .name address, .container address] :=
  (List.perm_append_singleton (Resource.plugin plugin)
    [Resource.name address, .container address]).cons _

/-- The spec lemma: what is left when no container is made. -/
theorem containerMake_spec {s t : Loader} {extra : List Resource} {plugin : Nat}
    {answers : LoadAnswers} {made : Option Nat}
    (h : Account LoaderEvent.effect Rule (.plugin plugin :: (s.owned ++ extra)) s.trace)
    (hversion : lastVersion s.trace = some (plugin, abiVersion))
    (ht : s.containerMake plugin answers = .ok (made, t)) :
    t.Accounts (s.makeLeaves plugin answers ++ extra) := by
  have hleft : ∀ {t : Loader} (left : List Resource), t.owned = s.owned →
      Account LoaderEvent.effect Rule (left ++ (s.owned ++ extra)) t.trace →
      t.Accounts (left ++ extra) := by
    intro t left howned haccount
    rw [Accounts, howned]
    exact haccount.perm (List.perm_append_comm_assoc left s.owned extra)
  unfold containerMake at ht
  unfold makeLeaves
  split at ht
  · rename_i hmissing
    cases ht
    rw [if_pos hmissing]
    exact hleft [.plugin plugin] rfl h
  · rename_i hcreate
    rw [if_neg hcreate]
    cases hmemory : s.memoryCreate answers.memory with
    | none =>
      simp only [hmemory] at ht
      cases ht
      exact hleft [.plugin plugin] rfl h
    | some address =>
      simp only [hmemory] at ht ⊢
      obtain ⟨-, hfree⟩ := memoryCreate_eq_some hmemory
      have hcreated := h.take (e := .memoryCreate address) (r := .container address) rfl hfree
      have hstill : lastVersion (s.trace ++ [.memoryCreate address]) = some (plugin, abiVersion) :=
        (lastVersion_concat (by simp)).trans hversion
      split at ht
      · rename_i hnamed
        cases ht
        rw [if_pos hnamed]
        refine hleft [.plugin plugin] rfl ?_
        exact hcreated.give (e := .destroyContainer address) rfl trivial
      · rename_i hnamed
        rw [if_neg hnamed]
        split at ht
        · cases ht
        · rename_i hnull
          rw [if_neg hnull]
          have hname := hcreated.take (e := .memoryStrdup address) (r := .name address) rfl trivial
          have hlast : lastVersion (s.trace ++ [.memoryCreate address] ++ [.memoryStrdup address]) =
              some (plugin, abiVersion) := (lastVersion_concat (by simp)).trans hstill
          have hopen := hname.held_of_mem (r := .plugin plugin) (by simp)
          cases hhandle : answers.created with
          | none =>
            simp only [hhandle] at ht
            cases ht
            have hcalled := hname.skip (e := .rappCreate plugin none) rfl ⟨hopen, hlast⟩
            have hunnamed := hcalled.give (e := .destroyName address) rfl trivial
            exact hleft [.plugin plugin] rfl
              (hunnamed.give (e := .destroyContainer address) rfl trivial)
          | some handle =>
            simp only [hhandle] at ht ⊢
            have hcalled := hname.take (e := .rappCreate plugin (some handle))
              (r := .handle plugin handle) rfl ⟨hopen, hlast⟩
            split at ht
            · rename_i hsymbols
              cases ht
              rw [if_pos hsymbols]
              exact hleft _ rfl hcalled
            · rename_i hsymbols
              cases ht
              rw [if_neg hsymbols]
              have hmade := made_perm plugin handle address
              exact hcalled.perm (hmade.append_right (s.owned ++ extra))

/-- The spec lemma for a load. -/
theorem containerNew_spec {s t : Loader} {extra : List Resource} {answers : LoadAnswers}
    {made : Option Nat} (h : s.Accounts extra) (ht : s.containerNew answers = .ok (made, t)) :
    t.Accounts (s.leaves (.containerNew answers) ++ extra) := by
  unfold containerNew at ht
  simp only [leaves]
  cases hopened : answers.opened with
  | none =>
    simp only [hopened] at ht ⊢
    cases ht
    exact h
  | some plugin =>
    simp only [hopened] at ht ⊢
    have hopen := Account.take h (e := .dlopen plugin) (r := .plugin plugin) rfl trivial
    have hheld := hopen.held_of_mem (r := .plugin plugin) List.mem_cons_self
    cases hsymbol : answers.symbols .rappGetAbiVersion with
    | missing =>
      simp only [hsymbol] at ht
      cases ht
      rw [if_neg (by simp)]
      exact hopen.give (e := .dlclose plugin) rfl trivial
    | null =>
      simp only [hsymbol] at ht
      cases ht
    | function =>
      simp only [hsymbol] at ht
      have hasked := hopen.skip (e := .rappGetAbiVersion plugin answers.version) rfl hheld
      split at ht
      · rename_i hcompatible
        have hversion : answers.version = abiVersion := (eq_of_beq hcompatible).symm
        rw [if_pos ⟨rfl, hversion⟩]
        let asked := (s.note (.dlopen plugin)).note (.rappGetAbiVersion plugin answers.version)
        have hlast : lastVersion asked.trace = some (plugin, abiVersion) := by
          simp [asked, lastVersion, hversion]
        have hmemory : asked.memoryCreate answers.memory = s.memoryCreate answers.memory :=
          (memoryCreate_note (by simp [LoaderEvent.effect]) _).trans
            (memoryCreate_note (by simp [LoaderEvent.effect]) _)
        have hsame : asked.makeLeaves plugin answers = s.makeLeaves plugin answers := by
          rw [makeLeaves, makeLeaves, hmemory]
        rw [← hsame]
        exact containerMake_spec (s := asked) hasked hlast ht
      · rename_i hcompatible
        cases ht
        have hversion : ¬ answers.version = abiVersion := by
          intro heq
          exact hcompatible (by simp [isAbiCompatible, heq])
        rw [if_neg (fun hboth => hversion hboth.2)]
        exact hasked.give (e := .dlclose plugin) rfl trivial

/-- A load leaves something behind exactly when it strands. -/
theorem leaves_eq_nil_iff (s : Loader) (answers : LoadAnswers) :
    s.leaves (.containerNew answers) = [] ↔ ¬ s.Strands answers := by
  cases hopened : answers.opened with
  | none => simp [leaves, Strands, hopened]
  | some plugin =>
    by_cases hversion : answers.symbols .rappGetAbiVersion = .function ∧
        answers.version = abiVersion
    · have hleaves : s.leaves (.containerNew answers) = s.makeLeaves plugin answers := by
        simp only [leaves, hopened, if_pos hversion]
      rw [hleaves, makeLeaves]
      cases hcreate : answers.symbols .rappCreate <;>
        cases hmemory : s.memoryCreate answers.memory <;>
        cases hnamed : answers.named <;>
        cases hcreated : answers.created <;>
        simp [Strands, hopened, hversion, hcreate, hmemory, hnamed, hcreated]
    · simp only [leaves, hopened, if_neg hversion, true_iff]
      rintro ⟨-, hfunction, hsame, -⟩
      exact hversion ⟨hfunction, hsame⟩

theorem containerNewCustom_spec {s : Loader} {extra : List Resource} (h : s.Accounts extra)
    (memory : Option Nat) (named : Bool) (userData : Nat) :
    (s.containerNewCustom memory named userData).2.Accounts extra := by
  unfold containerNewCustom
  cases hmemory : s.memoryCreate memory with
  | none => exact h
  | some address =>
    obtain ⟨-, hfree⟩ := memoryCreate_eq_some hmemory
    have hcreated := Account.take h (e := .memoryCreate address) (r := .container address) rfl hfree
    cases named with
    | true => exact hcreated.take (e := .memoryStrdup address) (r := .name address) rfl trivial
    | false => exact hcreated.give (e := .destroyContainer address) rfl trivial

/-- A call through a pointer of a container takes and gives nothing. -/
theorem call_spec {s t : Loader} {extra : List Resource} (h : s.Accounts extra)
    {c : LoadedContainer} (hc : c ∈ s.containers) {symbol : Symbol} {function : PluginFunction}
    {e : Nat → LoaderEvent}
    (heffect : ∀ plugin, (e plugin).effect = .none)
    (hrule : ∀ plugin trace, Held LoaderEvent.effect trace (.plugin plugin) →
      Held LoaderEvent.effect trace (.handle plugin c.handle) → Rule trace (e plugin))
    (ht : s.call symbol function c.plugin e = .ok t) : t.Accounts extra := by
  unfold call at ht
  split at ht
  · cases ht
    cases hplugin : c.plugin with
    | none => exact h
    | some plugin =>
      have hheld : ∀ r ∈ c.resources, Held LoaderEvent.effect s.trace r := fun r hr =>
        Account.held_of_mem h (List.mem_append_left _ (List.mem_flatMap.mpr ⟨c, hc, hr⟩))
      refine Account.skip h (heffect plugin) (hrule plugin _ ?_ ?_)
      · exact hheld _ (by simp [LoadedContainer.resources, hplugin])
      · exact hheld _ (by simp [LoadedContainer.resources, hplugin])
  · cases ht

/-- A container that is destroyed gives back all it has, or nothing where its
plugin reports an error. -/
theorem containerDestroy_spec {s t : Loader} {extra : List Resource} (h : s.Accounts extra)
    {c : LoadedContainer} (hc : c ∈ s.containers) {result : Int}
    (ht : s.containerDestroy c result = .ok t) : t.Accounts extra := by
  unfold containerDestroy at ht
  obtain ⟨called, hcalled, rfl⟩ := Outcome.map_eq_ok.mp ht
  by_cases hresult : result = 0
  · subst hresult
    simp only [if_pos]
    have howned : (s.owned ++ extra).Perm
        (c.resources ++ ((s.containers.erase c).flatMap LoadedContainer.resources ++ extra)) := by
      have hperm := (List.perm_cons_erase hc).flatMap_right LoadedContainer.resources
      rw [List.flatMap_cons] at hperm
      rw [← List.append_assoc]
      exact hperm.append_right extra
    have hall := Account.perm h howned
    unfold call at hcalled
    split at hcalled
    · cases hcalled
      cases hplugin : c.plugin with
      | none =>
        simp only [LoadedContainer.resources, hplugin, Option.elim_none, List.nil_append] at hall
        have hunnamed := hall.give (e := .destroyName c.address) rfl trivial
        exact hunnamed.give (e := .destroyContainer c.address) rfl trivial
      | some plugin =>
        simp only [LoadedContainer.resources, hplugin, Option.elim_some] at hall
        have hopen := hall.held_of_mem (r := .plugin plugin) (by simp)
        have hhandle := hall.held_of_mem (r := .handle plugin c.handle) (by simp)
        have hdestroyed := hall.give (e := .rappDestroy plugin c.handle 0) rfl ⟨hopen, hhandle⟩
        have hclosed := hdestroyed.give (e := .dlclose plugin) rfl trivial
        have hunnamed := hclosed.give (e := .destroyName c.address) rfl trivial
        exact hunnamed.give (e := .destroyContainer c.address) rfl trivial
    · cases hcalled
  · rw [if_neg hresult]
    refine call_spec h hc (fun plugin => ?_) (fun plugin trace hopen hhandle => ?_) hcalled
    · unfold LoaderEvent.effect
      split <;> simp_all
    · exact ⟨hopen, hhandle⟩

/-- A load that has the right version in hand makes a container. -/
def LoadsWhole (s : Loader) (i : LoaderCall) : Prop :=
  ∀ answers, i = .containerNew answers → ¬ s.Strands answers

theorem mem_of_find {s : Loader} {address : Nat} {c : LoadedContainer}
    (h : s.find address = some c) :
    c ∈ s.containers := List.mem_of_find?_eq_some h

theorem leaves_iff_loadsWhole (s : Loader) (i : LoaderCall) :
    s.leaves i = [] ↔ s.LoadsWhole i := by
  cases i with
  | containerNew answers =>
    rw [leaves_eq_nil_iff]
    simp [LoadsWhole]
  | _ => simp [leaves, LoadsWhole]

/-- The step lemma. -/
theorem Accounts.step {s t : Loader} {extra : List Resource} (h : s.Accounts extra)
    {i : LoaderCall} (ht : s.step i = .ok t) : t.Accounts (s.leaves i ++ extra) := by
  cases i with
  | containerNew answers =>
    obtain ⟨⟨made, u⟩, hmade, rfl⟩ := Outcome.map_eq_ok.mp ht
    exact containerNew_spec h hmade
  | containerNewCustom memory named userData =>
    cases ht
    exact containerNewCustom_spec h memory named userData
  | containerInit address =>
    simp only [Loader.step, withContainer] at ht
    split at ht
    · rename_i c hc
      exact call_spec (e := fun plugin => .rappInit plugin c.handle) h (mem_of_find hc)
        (fun _ => rfl) (fun plugin trace hopen hhandle => ⟨hopen, hhandle⟩) ht
    · cases ht
  | containerServe address =>
    simp only [Loader.step, withContainer] at ht
    split at ht
    · rename_i c hc
      exact call_spec (e := fun plugin => .rappServe plugin c.handle) h (mem_of_find hc)
        (fun _ => rfl) (fun plugin trace hopen hhandle => ⟨hopen, hhandle⟩) ht
    · cases ht
  | containerDestroy address result =>
    simp only [Loader.step, withContainer] at ht
    split at ht
    · rename_i c hc
      exact containerDestroy_spec h (mem_of_find hc) ht
    · cases ht

/-- The run lemma: what is held is what the containers have and what failed loads left. -/
theorem Accounts.run {is : List LoaderCall} {s t : Loader} {extra : List Resource}
    (h : s.Accounts extra) (ht : CallOutcome.run Loader.step is s = .ok t) :
    t.Accounts (leavesAlong is s ++ extra) := by
  induction is generalizing s extra with
  | nil =>
    cases ht
    exact h
  | cons i is ih =>
    obtain ⟨middle, hstep, hrest⟩ := Outcome.bind_eq_ok.mp ht
    have hlater := ih (h.step hstep) hrest
    rw [leavesAlong, hstep, List.append_assoc]
    exact hlater

theorem accounts_new : new.Accounts [] := ResourceBooks.account_nil

/-- In every run, plugins are called only while they are open and have the right
version, their handles only between `rapp_create` and the `rapp_destroy` that
returned 0, and nothing is closed or freed twice. -/
theorem plugins_called_when_open {is : List LoaderCall} {s : Loader}
    (hs : run step is new = .ok s) : Guarded (Allowed LoaderEvent.effect Rule) s.trace :=
  (accounts_new.run hs).guarded

/-- The hello plugin: loaded, initialised, served from and destroyed, with another
version of it refused before. -/
def helloAnswers (version : Int) : LoadAnswers :=
  ⟨some 7, fun _ => .function, version, some 1000, true, some 50⟩

def helloCalls : List LoaderCall :=
  [.containerNew (helloAnswers 2), .containerNew (helloAnswers 1), .containerInit 1000,
    .containerServe 1000, .containerDestroy 1000 (-1), .containerDestroy 1000 0]

theorem plugins_called_when_open_hello : ∃ s, run step helloCalls new = .ok s ∧
    Guarded (Allowed LoaderEvent.effect Rule) s.trace := by
  have hrun : ∃ s, run step helloCalls new = .ok s ∧ s.containers = [] :=
    Outcome.exists_of_toOption (by decide +kernel)
  obtain ⟨s, hs, -⟩ := hrun
  exact ⟨s, hs, plugins_called_when_open hs⟩

/-- What is held is what the containers have. -/
def OwnsAll (s : Loader) : Prop := Books LoaderEvent.effect s.owned s.trace

theorem Accounts.ownsAll {s : Loader} (h : s.Accounts []) : s.OwnsAll := by
  have hbooks := h.books
  rwa [List.append_nil] at hbooks

/-- Behind every run, what is held is what the containers have and what failed loads left. -/
theorem books_run {is : List LoaderCall} {s : Loader} (hs : run step is new = .ok s) :
    Books LoaderEvent.effect (s.owned ++ leavesAlong is new) s.trace := by
  have haccounts := accounts_new.run hs
  rw [List.append_nil] at haccounts
  exact haccounts.books

/-- Without `rapp_serve`: the plugin stays open with its handle, the container and the name. -/
example : new.leaves (.containerNew { helloAnswers 1 with
      symbols := fun function => if function = .rappServe then .missing else .function }) =
    [.handle 7 50, .name 1000, .container 1000, .plugin 7] := by decide

/-- A load that ends between the two is the only way to lose a plugin, its handle or
memory: all along a run what is held is what the containers have exactly when no
load strands. -/
theorem ownsAll_iff (is : List LoaderCall) :
    Always step OwnsAll new is ↔ Admitted step LoadsWhole new is := by
  refine CallOutcome.always_iff_admitted (I := Accounts []) accounts_new ?_ ?_ ?_ ?_
  · intro s h
    exact h.ownsAll
  · intro i _ s t h ht
    have haccounts := h.step ht
    rw [← leaves_iff_loadsWhole]
    constructor
    · intro hbooks
      have hlength := (haccounts.books.perm_of hbooks).length_eq
      simp only [List.length_append, List.length_nil] at hlength
      exact List.length_eq_zero_iff.mp (by omega)
    · intro hnothing
      rw [hnothing] at haccounts
      exact haccounts.ownsAll
  · intro i _ s t h ht hbooks
    refine ⟨?_, (h.step ht).guarded⟩
    rw [List.append_nil]
    exact hbooks
  · intro i _ s h hnot
    simp only [LoadsWhole, not_forall, not_not] at hnot
    obtain ⟨answers, rfl, hopened, hsymbol, hversion, hfails⟩ := hnot
    obtain ⟨plugin, hplugin⟩ := Option.ne_none_iff_exists'.mp hopened
    have hmade : ∃ made, s.containerNew answers = .ok made := by
      simp only [containerNew, hplugin, hsymbol, hversion, isAbiCompatible, beq_self_eq_true,
        if_true, containerMake]
      split
      · exact ⟨_, rfl⟩
      · rename_i hcreate
        rw [memoryCreate_note (by simp [LoaderEvent.effect]),
          memoryCreate_note (by simp [LoaderEvent.effect])]
        cases hmemory : s.memoryCreate answers.memory with
        | none => exact ⟨_, rfl⟩
        | some address =>
          rcases hfails with hmissing | hnone | hnamed | ⟨hfunction, hfails⟩
          · exact absurd hmissing hcreate
          · cases hmemory.symm.trans hnone
          · simp only [hnamed, Bool.not_false, if_true]
            exact ⟨_, rfl⟩
          · simp only [hfunction, reduceCtorEq, if_false]
            split
            · exact ⟨_, rfl⟩
            · cases answers.created with
              | none => exact ⟨_, rfl⟩
              | some handle =>
                simp only
                split <;> exact ⟨_, rfl⟩
    obtain ⟨made, hmade⟩ := hmade
    exact ⟨made.2, by simp [Loader.step, hmade]⟩

end Loader

end Rapp
