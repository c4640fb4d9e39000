import Rapp.HttpRequest

/-!
# Routing

`httprouter.c`: bindings are kept in packs of fixed size, the first one inside
the router, and scanned in the order they were made. Allocations succeed; the
containers are plugins and their code is a parameter. A pack holds the bindings
below its `binding_num`, a text its bytes with the NUL.
-/
namespace Rapp

open CallOutcome (Outcome)
open ByteBlock

abbrev routeBaseLen : Nat := 14
abbrev routeGroupLen : Nat := 30
abbrev routeMaxLen : Nat := 1023

abbrev intMin : Int := -2 ^ 31
abbrev intMax : Int := 2 ^ 31 - 1

inductive RouteMatchMode where
  | first
  | longest
  deriving DecidableEq

/-- Where `route` points: to the binding's own `name`, or to a copy. -/
inductive RoutePointer where
  | name
  | copy (memory : Bytes)
  deriving DecidableEq

structure RouteBinding (κ : Type) where
  route : RoutePointer
  container : κ
  name : Bytes
  routeLen : Int
  deriving DecidableEq

structure RoutePack (κ : Type) where
  bindings : List (RouteBinding κ)
  bindingNum_le : bindings.length ≤ routeGroupLen

/-- `packs` is the chain from `pack` on, `last` the position of the pack `last` points to. -/
structure HTTPRouter (κ : Type) where
  packs : List (RoutePack κ)
  last : Nat
  null : κ
  starter : Option κ
  matchMode : RouteMatchMode

/-- What C gives no meaning to. -/
inductive RouterFault where
  /-- `last` points to no pack. -/
  | danglingPack
  /-- A byte behind the end of a block is read. -/
  | readPast
  /-- `n--` leaves the range of `int`. -/
  | intOverflow
  deriving DecidableEq

variable {κ σ : Type}

namespace RouteBinding

/-- The bytes from `route` on. -/
def memory (binding : RouteBinding κ) : Bytes :=
  match binding.route with
  | .name => binding.name
  | .copy memory => memory

/-- The binding `route_pack_bind` writes. -/
def bound (route : Bytes) (container : κ) : RouteBinding κ :=
  let text := cString route
  let routeLen := (text.length : Int).bmod (2 ^ 16)
  let name := List.replicate routeBaseLen 0
  if routeLen < routeBaseLen then
    { route := .name
      container := container
      name := overwrite 0 (text ++ [0]) name
      routeLen := routeLen }
  else
    { route := .copy (text ++ [0])
      container := container
      name := name
      routeLen := routeLen }

end RouteBinding

namespace RoutePack

def empty : RoutePack κ := ⟨[], Nat.zero_le _⟩

/-- A binding at `binding_num`. -/
def add (pack : RoutePack κ) (binding : RouteBinding κ) (h : pack.bindings.length ≠ routeGroupLen) :
    RoutePack κ :=
  ⟨pack.bindings ++ [binding], by
    have := pack.bindingNum_le
    simp only [List.length_append, List.length_singleton]
    omega⟩

end RoutePack

/-- `route_pack_bind` on the pack at `index`: the new chain and the pack that
was written. Behind a full pack there is a new one, and nothing else any more. -/
def routePackBind (packs : List (RoutePack κ)) (index : Nat) (route : Bytes) (container : κ) :
    Option (List (RoutePack κ) × Nat) :=
  match packs[index]? with
  | none => none
  | some pack =>
    if h : pack.bindings.length = routeGroupLen then
      let next := RoutePack.empty.add (.bound route container) (by simp [RoutePack.empty])
      some (packs.take (index + 1) ++ [next], index + 1)
    else some (packs.set index (pack.add (.bound route container) h), index)

namespace HTTPRouter

def new (null : κ) (matchMode : RouteMatchMode) : HTTPRouter κ where
  packs := [.empty]
  last := 0
  null := null
  starter := none
  matchMode := matchMode

def setDefaultContainer (router : HTTPRouter κ) (container : κ) : HTTPRouter κ :=
  { router with starter := some container }

def bind (router : HTTPRouter κ) (route : Bytes) (container : κ) :
    Outcome RouterFault (HTTPRouter κ) :=
  if routeMaxLen < (cString route).length then .failed router
  else match routePackBind router.packs router.last route container with
    | none => .undefined .danglingPack
    | some (packs, last) => .ok { router with packs := packs, last := last }

end HTTPRouter

/-- The loop of `strmatch`; the blocks are those behind the two pointers. -/
def strmatch (s₁ s₂ : Bytes) (n : Int) : Except RouterFault Nat :=
  if n = 0 then .ok 0
  else if n = intMin then .error .intOverflow
  else match s₁, s₂ with
    | byte :: s₁, other :: s₂ =>
      if byte = other then (strmatch s₁ s₂ (n - 1)).map (· + 1) else .ok 0
    | _, _ => .error .readPast

theorem strmatch_zero (s₁ s₂ : Bytes) : strmatch s₁ s₂ 0 = .ok 0 := by
  unfold strmatch
  simp

theorem strmatch_cons {byte other : UInt8} {s₁ s₂ : Bytes} {n : Int} (hzero : n ≠ 0)
    (hmin : n ≠ intMin) : strmatch (byte :: s₁) (other :: s₂) n =
      if byte = other then (strmatch s₁ s₂ (n - 1)).map (· + 1) else .ok 0 := by
  rw [strmatch, if_neg hzero, if_neg hmin]

/-- The loop over the bindings of a pack; the flag is `found`. -/
def scanBindings (mode : RouteMatchMode) (url : Bytes) (n : Int) :
    List (RouteBinding κ) → κ → Except RouterFault (κ × Bool)
  | [], candidate => .ok (candidate, false)
  | binding :: bindings, candidate =>
    match strmatch url binding.memory n with
    | .error why => .error why
    | .ok current =>
      if binding.routeLen ≤ current then
        match mode with
        | .first => .ok (binding.container, true)
        | .longest => scanBindings mode url n bindings binding.container
      else scanBindings mode url n bindings candidate

/-- The loop over the packs. -/
def scanPacks (mode : RouteMatchMode) (url : Bytes) (n : Int) :
    List (RoutePack κ) → κ → Except RouterFault κ
  | [], candidate => .ok candidate
  | pack :: packs, candidate =>
    match scanBindings mode url n pack.bindings candidate with
    | .error why => .error why
    | .ok (candidate, found) =>
      if found then .ok candidate else scanPacks mode url n packs candidate

/-- The result of `http_router_serve`, the response, and the containers that were invoked. -/
structure Served (κ σ : Type) where
  ret : Int
  response : σ
  invoked : List κ
  deriving DecidableEq

variable (containerServe : κ → HTTPRequest → σ → Int × σ)

/-- `container_serve`. -/
def invoke (container : κ) (request : HTTPRequest) (response : σ) (invoked : List κ) :
    Served κ σ :=
  let served := containerServe container request response
  ⟨served.1, served.2, invoked ++ [container]⟩

namespace HTTPRouter

/-- The URL length is passed as an `int`. -/
def route (router : HTTPRouter κ) (request : HTTPRequest) : Except RouterFault κ :=
  scanPacks router.matchMode
    ((request.headersBuffer.getD []).drop request.urlRange.offset)
    ((request.urlRange.length : Int).bmod (2 ^ 32)) router.packs router.null

def serve (router : HTTPRouter κ) (request : HTTPRequest) (response : σ) :
    Except RouterFault (Served κ σ) :=
  match router.starter with
  | none =>
    (router.route request).map fun container =>
      invoke containerServe container request response []
  | some starter =>
    let tried := invoke containerServe starter request response []
    if tried.ret = 0 then .ok tried
    else (router.route request).map fun container =>
      invoke containerServe container request tried.response tried.invoked

end HTTPRouter

end Rapp
