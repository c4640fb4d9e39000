import Rapp.Lib.Books

/-!
# The listening socket

`tcpserver.c` from `tcp_server_new` to `tcp_server_destroy`: a server may be
told to listen any number of times, and every call of the kernel may fail. The
calls are recorded, with the sockets and the lists of `getaddrinfo` they take
and give back.
-/
namespace Rapp

open CallOutcome (Outcome run Guarded Always Admitted)
open ResourceBooks (Effect Held Allowed Account Books)

/-- `BACKLOG` -/
abbrev backlog : Nat := 1024

inductive ListenResource where
  | addrinfos (list : Nat)
  | socket (fd : Nat)
  deriving DecidableEq

inductive ListenOption where
  | soReuseaddr
  | soReuseport
  deriving DecidableEq

/-- Calls that succeeded; a call that fails takes and changes nothing. -/
inductive ListenEvent where
  | getaddrinfo (list : Nat)
  | freeaddrinfo (list : Nat)
  | socket (fd list : Nat)
  | setsockopt (fd : Nat) (option : ListenOption)
  | fcntlNonblock (fd : Nat)
  | bind (fd list : Nat)
  | listen (fd backlog : Nat)
  | addFdWatch (fd : Nat)
  | removeFdWatch (fd : Nat)
  | close (fd : Nat)
  deriving DecidableEq

def ListenEvent.effect : ListenEvent → Effect ListenResource
  | getaddrinfo list => .takes (.addrinfos list)
  | freeaddrinfo list => .gives (.addrinfos list)
  | socket fd _ => .takes (.socket fd)
  | close fd => .gives (.socket fd)
  | _ => .none

/-- `listenFd` is none for -1. -/
structure TcpServer where
  listenFd : Option Nat
  trace : List ListenEvent

/-- What the kernel and the resolver answer while the server is told to listen. -/
structure ListenAnswers where
  addrinfos : Option Nat
  socket : Option Nat
  reuseaddr : Bool
  reuseport : Bool
  nonblock : Bool
  bound : Bool
  listens : Bool
  watched : Bool

namespace TcpServer

def new : TcpServer := ⟨none, []⟩

def note (e : ListenEvent) (s : TcpServer) : TcpServer := { s with trace := s.trace ++ [e] }

def IsHeld (s : TcpServer) (r : ListenResource) : Prop := Held ListenEvent.effect s.trace r

instance (s : TcpServer) (r : ListenResource) : Decidable (s.IsHeld r) :=
  inferInstanceAs (Decidable (Held _ _ _))

/-- What is in use is no answer of `socket` or of `getaddrinfo`. -/
def fresh (resource : Nat → ListenResource) (answer : Option Nat) (s : TcpServer) : Option Nat :=
  answer.filter fun id => !decide (s.IsHeld (resource id))

/-- The calls on the new socket in order, up to the first that fails, with the event
of each one that succeeds; the list is freed after `bind`, or where a call before fails. -/
def calls (reuseportFound : Bool) (fd list : Nat) (answers : ListenAnswers) :
    List (Bool × ListenEvent) :=
  (answers.reuseaddr, .setsockopt fd .soReuseaddr) ::
    ((if reuseportFound then [(answers.reuseport, .setsockopt fd .soReuseport)] else []) ++
      [(answers.nonblock, .fcntlNonblock fd), (answers.bound, .bind fd list)])

/-- Calls that need the list; whether all of them succeeded, and the state after them. -/
def perform : List (Bool × ListenEvent) → TcpServer → Bool × TcpServer
  | [], s => (true, s)
  | (true, e) :: rest, s => perform rest (s.note e)
  | (false, _) :: _, s => (false, s)

def startListen (reuseportFound : Bool) (answers : ListenAnswers) (s : TcpServer) :
    Int × TcpServer :=
  match s.fresh .addrinfos answers.addrinfos with
  | none => (-1, s)
  | some list =>
    let s := s.note (.getaddrinfo list)
    match s.fresh .socket answers.socket with
    | none => (-1, { s.note (.freeaddrinfo list) with listenFd := none })
    | some fd =>
      let s := { s.note (.socket fd list) with listenFd := some fd }
      let (bound, s) := s.perform (calls reuseportFound fd list answers)
      let s := s.note (.freeaddrinfo list)
      if !bound then (-1, s)
      else if !answers.listens then (-1, s)
      else
        let s := s.note (.listen fd backlog)
        if answers.watched then (0, s.note (.addFdWatch fd)) else (-1, s)

/-- `tcp_server_destroy` without the memory of the server. -/
def destroy (s : TcpServer) : TcpServer :=
  match s.listenFd with
  | none => s
  | some fd => { (s.note (.removeFdWatch fd)).note (.close fd) with listenFd := none }

/-- A server may be told to listen again. -/
def step (reuseportFound : Bool) (answers : ListenAnswers) (s : TcpServer) :
    Outcome Empty TcpServer := .ok (s.startListen reuseportFound answers).2

/-! ### What may be called when -/

/-- What was done to a socket since it was made, the last first. -/
def sinceSocket (fd : Nat) (trace : List ListenEvent) : List ListenEvent :=
  trace.reverse.takeWhile fun e =>
    match e with
    | .socket other _ => other ≠ fd
    | _ => true

/-- A socket is used while it is open and the list of addresses while it is there; what
the loop watches is bound, listens, and does not block. -/
def Rule (trace : List ListenEvent) (e : ListenEvent) : Prop :=
  let held := Held ListenEvent.effect trace
  match e with
  | .getaddrinfo list => ¬ held (.addrinfos list)
  | .socket fd list => held (.addrinfos list) ∧ ¬ held (.socket fd)
  | .setsockopt fd _ => held (.socket fd)
  | .fcntlNonblock fd => held (.socket fd)
  | .bind fd list => held (.socket fd) ∧ held (.addrinfos list)
  | .listen fd _ => held (.socket fd)
  | .addFdWatch fd => held (.socket fd) ∧ .setsockopt fd .soReuseaddr ∈ sinceSocket fd trace ∧
      .fcntlNonblock fd ∈ sinceSocket fd trace ∧
      (∃ list, .bind fd list ∈ sinceSocket fd trace) ∧ .listen fd backlog ∈ sinceSocket fd trace
  | .removeFdWatch fd => held (.socket fd)
  | _ => True

def owned (s : TcpServer) : List ListenResource := s.listenFd.toList.map .socket

/-- The books: the socket of the server, and what else is held. -/
def Accounts (extra : List ListenResource) (s : TcpServer) : Prop :=
  Account ListenEvent.effect Rule (s.owned ++ extra) s.trace

theorem sinceSocket_concat {fd : Nat} {trace : List ListenEvent} {e : ListenEvent}
    (he : ∀ list, e ≠ .socket fd list) :
    sinceSocket fd (trace ++ [e]) = e :: sinceSocket fd trace := by
  rw [sinceSocket, List.reverse_append, List.reverse_singleton, List.singleton_append,
    List.takeWhile_cons]
  cases e
  case socket other list =>
    have hne : other ≠ fd := by
      rintro rfl
      exact he list rfl
    simp [hne, sinceSocket]
  all_goals simp [sinceSocket]

theorem fresh_eq_some {s : TcpServer} {resource : Nat → ListenResource} {answer : Option Nat}
    {id : Nat} (h : s.fresh resource answer = some id) : ¬ s.IsHeld (resource id) := by
  simpa using (Option.filter_eq_some_iff.mp h).2

/-- Calls that take and give nothing, each in its place. -/
theorem perform_spec {held : List ListenResource} {fd : Nat} {calls : List (Bool × ListenEvent)}
    {s : TcpServer} (h : Account ListenEvent.effect Rule held s.trace)
    (hcalls : ∀ c ∈ calls, c.2.effect = .none ∧ (∀ list, c.2 ≠ .socket fd list) ∧
      ∀ trace, Account ListenEvent.effect Rule held trace → Rule trace c.2) :
    Account ListenEvent.effect Rule held (s.perform calls).2.trace ∧
      (s.perform calls).2.listenFd = s.listenFd ∧
      ((s.perform calls).1 = true → ∀ c ∈ calls,
        c.2 ∈ sinceSocket fd (s.perform calls).2.trace) ∧
      ∀ e ∈ sinceSocket fd s.trace, e ∈ sinceSocket fd (s.perform calls).2.trace := by
  induction calls generalizing s with
  | nil => exact ⟨h, rfl, by simp, fun e he => he⟩
  | cons c calls ih =>
    obtain ⟨succeeded, e⟩ := c
    cases succeeded with
    | false => exact ⟨h, rfl, by simp [perform], fun e he => he⟩
    | true =>
      obtain ⟨heffect, hother, hrule⟩ := hcalls _ List.mem_cons_self
      have hnoted : Account ListenEvent.effect Rule held (s.note e).trace :=
        h.skip heffect (hrule _ h)
      obtain ⟨haccount, hlisten, hdone, hsince⟩ := ih hnoted fun c hc =>
        hcalls c (List.mem_cons_of_mem _ hc)
      have hcons : sinceSocket fd (s.note e).trace = e :: sinceSocket fd s.trace :=
        sinceSocket_concat hother
      rw [hcons] at hsince
      refine ⟨haccount, hlisten, fun hall c hc => ?_, fun e he => ?_⟩
      · rcases List.mem_cons.mp hc with rfl | hc
        · exact hsince _ List.mem_cons_self
        · exact hdone hall c hc
      · exact hsince e (List.mem_cons_of_mem _ he)

/-- The calls before `listen` take and give nothing and use what is held. -/
theorem calls_spec {held : List ListenResource} {fd list : Nat}
    (hsocket : .socket fd ∈ held) (hlist : .addrinfos list ∈ held) (reuseportFound : Bool)
    (answers : ListenAnswers) : ∀ c ∈ calls reuseportFound fd list answers,
      c.2.effect = .none ∧ (∀ list, c.2 ≠ .socket fd list) ∧
      ∀ trace, Account ListenEvent.effect Rule held trace → Rule trace c.2 := by
  have hopen : ∀ trace, Account ListenEvent.effect Rule held trace →
      Held ListenEvent.effect trace (.socket fd) := fun trace h => h.held_of_mem hsocket
  intro c hc
  simp only [calls, List.mem_cons, List.mem_append, List.mem_ite_nil_right, List.not_mem_nil,
    or_false] at hc
  rcases hc with rfl | ⟨-, rfl⟩ | rfl | rfl
  · exact ⟨rfl, by simp, hopen⟩
  · exact ⟨rfl, by simp, hopen⟩
  · exact ⟨rfl, by simp, hopen⟩
  · exact ⟨rfl, by simp, fun trace h => ⟨hopen trace h, h.held_of_mem hlist⟩⟩

/-- A server that is to listen and gets as far as a socket has none yet. -/
def KeepsSocket (s : TcpServer) (answers : ListenAnswers) : Prop :=
  s.fresh .addrinfos answers.addrinfos ≠ none → s.listenFd = none

/-- The step lemma: what is lost is the socket the server had before. -/
theorem startListen_spec {s : TcpServer} {extra : List ListenResource} (h : s.Accounts extra)
    (reuseportFound : Bool) (answers : ListenAnswers) :
    (∃ lost, (s.startListen reuseportFound answers).2.Accounts (lost ++ extra) ∧
      (lost = [] ↔ s.KeepsSocket answers)) ∧
    ((s.startListen reuseportFound answers).1 = 0 → ∃ fd,
      (s.startListen reuseportFound answers).2.listenFd = some fd ∧
      (s.startListen reuseportFound answers).2.trace.getLast? = some (.addFdWatch fd)) := by
  unfold startListen
  cases hlist : s.fresh .addrinfos answers.addrinfos with
  | none => exact ⟨⟨[], h, by simp [KeepsSocket, hlist]⟩, by simp⟩
  | some list =>
    have hkeeps : s.owned = [] ↔ s.KeepsSocket answers := by
      simp [owned, KeepsSocket, hlist]
    have hresolved := Account.take h (e := .getaddrinfo list) (r := .addrinfos list) rfl
      (fresh_eq_some hlist)
    simp only
    cases hsocket : (s.note (.getaddrinfo list)).fresh .socket answers.socket with
    | none =>
      have hfreed := hresolved.give (e := .freeaddrinfo list) rfl trivial
      exact ⟨⟨s.owned, hfreed, hkeeps⟩, by simp⟩
    | some fd =>
      have hmade := hresolved.take (e := .socket fd list) (r := .socket fd) rfl
        ⟨hresolved.held_of_mem List.mem_cons_self, fresh_eq_some hsocket⟩
      let made : TcpServer :=
        { (s.note (.getaddrinfo list)).note (.socket fd list) with listenFd := some fd }
      have hlisted : ListenResource.addrinfos list ∈
          ListenResource.socket fd :: .addrinfos list :: (s.owned ++ extra) := by simp
      obtain ⟨haccount, hlisten, hdone, -⟩ := perform_spec (s := made) hmade
        (calls_spec List.mem_cons_self hlisted reuseportFound answers)
      simp only
      cases hperform : made.perform (calls reuseportFound fd list answers) with
      | mk bound after =>
        rw [hperform] at haccount hlisten hdone
        have hfreed := (haccount.perm (List.Perm.swap _ _ _)).give (e := .freeaddrinfo list) rfl
          trivial
        have hopen := hfreed.held_of_mem (r := .socket fd) List.mem_cons_self
        have haccounts : ∀ {t : TcpServer}, t.listenFd = after.listenFd →
            Account ListenEvent.effect Rule (.socket fd :: (s.owned ++ extra)) t.trace →
            t.Accounts (s.owned ++ extra) := by
          intro t hfd ht
          rw [Accounts, owned, hfd, hlisten]
          exact ht
        cases bound with
        | false => exact ⟨⟨s.owned, haccounts rfl hfreed, hkeeps⟩, by simp⟩
        | true =>
          cases hlistens : answers.listens with
          | false => exact ⟨⟨s.owned, haccounts rfl hfreed, hkeeps⟩, by simp⟩
          | true =>
            have hlistening := hfreed.skip (e := .listen fd backlog) rfl hopen
            have hsince : ∀ e ∈ sinceSocket fd after.trace, e ∈ sinceSocket fd
                (after.trace ++ [.freeaddrinfo list] ++ [.listen fd backlog]) := by
              intro e he
              rw [sinceSocket_concat (by simp), sinceSocket_concat (by simp)]
              exact List.mem_cons_of_mem _ (List.mem_cons_of_mem _ he)
            cases hwatched : answers.watched with
            | false => exact ⟨⟨s.owned, haccounts rfl hlistening, hkeeps⟩, by simp⟩
            | true =>
              have hall := hdone rfl
              have hwatch := hlistening.skip (e := .addFdWatch fd) rfl
                ⟨hlistening.held_of_mem List.mem_cons_self,
                  hsince _ (hall (answers.reuseaddr, _) (by simp [calls])),
                  hsince _ (hall (answers.nonblock, _) (by simp [calls])),
                  ⟨list, hsince _ (hall (answers.bound, _) (by simp [calls]))⟩,
                  by rw [sinceSocket_concat (by simp)]; exact List.mem_cons_self⟩
              exact ⟨⟨s.owned, haccounts rfl hwatch, hkeeps⟩,
                fun _ => ⟨fd, hlisten, by simp [note]⟩⟩

/-- A server that is destroyed gives back its socket. -/
theorem Accounts.destroy {s : TcpServer} {extra : List ListenResource} (h : s.Accounts extra) :
    Account ListenEvent.effect Rule extra s.destroy.trace := by
  rw [Accounts, owned] at h
  unfold TcpServer.destroy
  cases hfd : s.listenFd with
  | none =>
    rw [hfd] at h
    exact h
  | some fd =>
    rw [hfd] at h
    have hremoved := h.skip (e := .removeFdWatch fd) rfl
      (h.held_of_mem (r := .socket fd) List.mem_cons_self)
    exact hremoved.give (e := .close fd) rfl trivial

theorem accounts_new : new.Accounts [] := ResourceBooks.account_nil

theorem accounts_run {reuseportFound : Bool} {is : List ListenAnswers} {s : TcpServer}
    (hs : run (step reuseportFound) is new = .ok s) : ∃ extra, s.Accounts extra := by
  refine CallOutcome.run_history (step reuseportFound) (I := fun _ s => ∃ extra, Accounts extra s)
    ⟨[], accounts_new⟩ ?_ hs
  rintro _ answers s t ⟨extra, h⟩ ht
  cases ht
  obtain ⟨⟨lost, haccounts, -⟩, -⟩ := startListen_spec h reuseportFound answers
  exact ⟨lost ++ extra, haccounts⟩

/-- However often a server was told to listen and whatever failed, until it is
destroyed: no socket is used that is closed, no list of addresses that was freed,
nothing is closed or freed twice, and what the loop watches listens without
blocking. When the call returns 0 it does. -/
theorem sockets_used_when_open (reuseportFound : Bool) {is : List ListenAnswers} {s : TcpServer}
    (hs : run (step reuseportFound) is new = .ok s) :
    Guarded (Allowed ListenEvent.effect Rule) s.destroy.trace ∧
    ∀ answers, (s.startListen reuseportFound answers).1 = 0 → ∃ fd,
      (s.startListen reuseportFound answers).2.listenFd = some fd ∧
      (s.startListen reuseportFound answers).2.trace.getLast? = some (.addFdWatch fd) := by
  obtain ⟨extra, h⟩ := accounts_run hs
  exact ⟨h.destroy.guarded, fun answers => (startListen_spec h reuseportFound answers).2⟩

/-- An address in use, and the second try. -/
def secondTry : List ListenAnswers :=
  [⟨some 1, some 5, true, true, true, false, true, true⟩,
    ⟨some 2, some 6, true, true, true, true, true, true⟩]

theorem sockets_used_when_open_secondTry : ∃ s, run (step true) secondTry new = .ok s ∧
    Guarded (Allowed ListenEvent.effect Rule) s.destroy.trace ∧
    ∀ answers, (s.startListen true answers).1 = 0 → ∃ fd,
      (s.startListen true answers).2.listenFd = some fd ∧
      (s.startListen true answers).2.trace.getLast? = some (.addFdWatch fd) := by
  have hrun : ∃ s, run (step true) secondTry new = .ok s ∧ s.listenFd = some 6 :=
    Outcome.exists_of_toOption (by decide +kernel)
  obtain ⟨s, hs, -⟩ := hrun
  exact ⟨s, hs, sockets_used_when_open true hs⟩

/-- A destroyed server has left no socket open and no list of addresses allocated. -/
def LeavesNothing (s : TcpServer) : Prop := Books ListenEvent.effect [] s.destroy.trace

/-- A server that is told to listen while it has a socket loses that one, and nothing
else is ever lost, whichever calls fail. -/
theorem leavesNothing_iff (reuseportFound : Bool) (is : List ListenAnswers) :
    Always (step reuseportFound) LeavesNothing new is ↔
      Admitted (step reuseportFound) KeepsSocket new is := by
  refine CallOutcome.always_iff_admitted (I := Accounts []) accounts_new ?_ ?_ ?_ ?_
  · intro s h
    exact h.destroy.books
  · intro answers _ s t h ht
    cases ht
    obtain ⟨⟨lost, haccounts, hlost⟩, -⟩ := startListen_spec h reuseportFound answers
    rw [← hlost]
    constructor
    · intro hnothing
      have hlength := (haccounts.destroy.books.perm_of hnothing).length_eq
      exact List.length_eq_zero_iff.mp (by simpa using hlength)
    · rintro rfl
      exact haccounts.destroy.books
  · intro answers _ s t h ht hnothing
    cases ht
    obtain ⟨⟨lost, haccounts, -⟩, -⟩ := startListen_spec h reuseportFound answers
    have hlength := (haccounts.destroy.books.perm_of hnothing).length_eq
    have hlost : lost ++ [] = [] := List.length_eq_zero_iff.mp hlength
    exact hlost ▸ haccounts
  · intro answers _ s _ _
    exact ⟨_, rfl⟩

/-- The socket of the first try is still open when the server is gone. -/
example : (((new.startListen true secondTry[0]).2.startListen true secondTry[1]).2.destroy).IsHeld
    (.socket 5) := by decide

end TcpServer

end Rapp
