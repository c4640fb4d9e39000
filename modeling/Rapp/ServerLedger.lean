import Mathlib.Data.Finset.Card
import Mathlib.Data.List.Perm.Basic
import Rapp.ServerIsolation

/-!
# The descriptors of the server

Which descriptors are open is known from the connections alone: the two of
`main` and the sockets of the connections that are open. Between two batches
these are as many as were accepted and not destroyed, so no socket is lost.
-/
namespace Rapp

open CallOutcome (Outcome run)
open ByteBlock

namespace HTTPServer

variable {parseUrl : ParseUrl} {serverName : Bytes} {u : ServerSetup}

/-- A connection has its socket open at the descriptor. -/
def HasSocket (s : HTTPServer) (fd : Nat) : Prop :=
  ∃ address c, s.connections address = some c ∧ c.isOpen = true ∧ c.fd = fd

/-- Every open descriptor is accounted for, and so is every connection there has been. -/
structure Ledgered (u : ServerSetup) (s : HTTPServer) : Prop where
  nodup : s.descriptors.Nodup
  mem_iff : ∀ fd, fd ∈ s.descriptors ↔ fd = u.listenFd ∨ fd = u.signalFd ∨ s.HasSocket fd
  apart : ∀ fd, s.HasSocket fd → fd ≠ u.listenFd ∧ fd ≠ u.signalFd
  serials : ∀ serial < s.accepted, s.destructions serial = [] →
    ∃ address c, s.connections address = some c ∧ c.serial = serial

/-- Two open sockets are of one connection if they have one descriptor. -/
theorem Kept.address_eq {s : HTTPServer} (h : s.Kept) {a b : Nat} {c d : ServerConnection}
    (hc : s.connections a = some c) (hd : s.connections b = some d) (hcopen : c.isOpen = true)
    (hdopen : d.isOpen = true) (hfd : c.fd = d.fd) : a = b := by
  obtain ⟨map, hregistered⟩ := h.registered
  have hopen : s.OpenAt ⟨a, c.serial⟩ d.fd := ⟨c, hc, rfl, hcopen, hfd⟩
  have hpointers : (⟨a, c.serial⟩ : ConnectionPointer) = ⟨b, d.serial⟩ :=
    hregistered.fd_injective hopen ⟨d, hd, rfl, hdopen, rfl⟩
  exact congrArg ConnectionPointer.address hpointers

/-- The sockets after a connection has changed or gone. -/
theorem Kept.hasSocket_replace {s t : HTTPServer} (h : s.Kept) {address : Nat}
    {c : ServerConnection} (hc : s.connections address = some c) {x : Option ServerConnection}
    (hx : ∀ c' ∈ x, c'.fd = c.fd ∧ (c'.isOpen = true → c.isOpen = true))
    (hconnections : t.connections = Function.update s.connections address x) (fd : Nat) :
    t.HasSocket fd ↔ s.HasSocket fd ∧
      ((c.isOpen && !x.any ServerConnection.isOpen) = true → fd ≠ c.fd) := by
  constructor
  · rintro ⟨b, d, hd, hopen, rfl⟩
    rw [hconnections, update_eq_some] at hd
    rcases hd with ⟨rfl, rfl⟩ | ⟨hb, hd⟩
    · obtain ⟨hfd, hold⟩ := hx d rfl
      refine ⟨⟨b, c, hc, hold hopen, hfd.symm⟩, fun hclose => ?_⟩
      simp [hopen] at hclose
    · refine ⟨⟨b, d, hd, hopen, rfl⟩, fun hclose hfd => hb ?_⟩
      have hcopen : c.isOpen = true := (Bool.and_eq_true _ _ ▸ hclose).1
      exact h.address_eq hd hc hopen hcopen hfd
  · rintro ⟨⟨b, d, hd, hopen, rfl⟩, hkept⟩
    by_cases hb : b = address
    · subst hb
      cases hc.symm.trans hd
      cases hany : x.any ServerConnection.isOpen with
      | false => exact absurd rfl (hkept (by simp [hopen, hany]))
      | true =>
        obtain ⟨c', hc', hopen'⟩ := (Option.any_eq_true _ _).mp hany
        exact ⟨b, c', by rw [hconnections, Function.update_self, hc'], hopen', (hx c' hc').1⟩
    · exact ⟨b, d, by rw [hconnections, Function.update_of_ne hb, hd], hopen, rfl⟩

/-- A connection that changes keeps its descriptor; only the one of a socket that is closed goes. -/
theorem Ledgered.replace {s t : HTTPServer} (h : s.Ledgered u) (hkept : s.Kept) {address : Nat}
    {c : ServerConnection} (hc : s.connections address = some c) {x : Option ServerConnection}
    (hx : ∀ c' ∈ x, c'.fd = c.fd ∧ (c'.isOpen = true → c.isOpen = true))
    (hconnections : t.connections = Function.update s.connections address x)
    (hdescriptors : t.descriptors = s.descriptorsAfter c x)
    (hserials : ∀ serial < t.accepted, t.destructions serial = [] →
      ∃ address c, t.connections address = some c ∧ c.serial = serial) : t.Ledgered u := by
  have hsocket := hkept.hasSocket_replace hc hx hconnections
  refine ⟨?_, fun fd => ?_, fun fd hfd => h.apart fd ((hsocket fd).mp hfd).1, hserials⟩
  · rw [hdescriptors, descriptorsAfter]
    split
    · exact h.nodup.filter _
    · exact h.nodup
  · rw [hdescriptors, descriptorsAfter, hsocket]
    split
    · rename_i hclose
      have hcopen : c.isOpen = true := (Bool.and_eq_true _ _ ▸ hclose).1
      obtain ⟨hlisten, hsignal⟩ := h.apart c.fd ⟨address, c, hc, hcopen, rfl⟩
      simp only [List.mem_filter, h.mem_iff, decide_eq_true_eq, hclose, forall_const]
      constructor
      · rintro ⟨rfl | rfl | hold, hne⟩
        · exact .inl rfl
        · exact .inr (.inl rfl)
        · exact .inr (.inr ⟨hold, hne⟩)
      · rintro (rfl | rfl | ⟨hold, hne⟩)
        · exact ⟨.inl rfl, hlisten.symm⟩
        · exact ⟨.inr (.inl rfl), hsignal.symm⟩
        · exact ⟨.inr (.inr hold), hne⟩
    · rename_i hclose
      rw [h.mem_iff]
      simp [hclose]

/-- The step lemma. -/
theorem Ledgered.change {s t : HTTPServer} (h : s.Ledgered u) (hkept : s.Kept) {i : ServerInput}
    (hchange : Change parseUrl serverName i s t) : t.Ledgered u := by
  cases hchange with
  | nothing label connections accepted descriptors destructions spared =>
    have hsocket : t.HasSocket = s.HasSocket := by
      funext fd
      rw [HasSocket, HasSocket, connections]
    refine ⟨descriptors ▸ h.nodup, ?_, hsocket ▸ h.apart, ?_⟩
    · rw [descriptors, hsocket]
      exact h.mem_iff
    · rw [accepted, destructions, connections]
      exact h.serials
  | accept answer label accepts connections accepted descriptors destructions spared =>
    obtain ⟨hfd, hfree, -, -⟩ := accepts
    have hsocket : ∀ fd, t.HasSocket fd ↔ fd = answer.fd ∨ s.HasSocket fd := by
      intro fd
      constructor
      · rintro ⟨b, d, hd, hopen, rfl⟩
        rw [connections, update_eq_some] at hd
        rcases hd with ⟨-, hd⟩ | ⟨-, hd⟩
        · cases hd
          exact .inl rfl
        · exact .inr ⟨b, d, hd, hopen, rfl⟩
      · rintro (rfl | ⟨b, d, hd, hopen, rfl⟩)
        · exact ⟨answer.connection, _, by rw [connections, Function.update_self], rfl, rfl⟩
        · have hb : b ≠ answer.connection := by
            rintro rfl
            cases hfree.symm.trans hd
          exact ⟨b, d, by rw [connections, Function.update_of_ne hb, hd], hopen, rfl⟩
    have hnew : answer.fd ≠ u.listenFd ∧ answer.fd ≠ u.signalFd := by
      rw [h.mem_iff, not_or, not_or] at hfd
      exact ⟨hfd.1, hfd.2.1⟩
    refine ⟨?_, fun fd => ?_, fun fd hs => ?_, fun serial hserial hdestructions => ?_⟩
    · rw [descriptors]
      exact List.nodup_cons.mpr ⟨hfd, h.nodup⟩
    · rw [descriptors, List.mem_cons, h.mem_iff, hsocket]
      tauto
    · rcases (hsocket fd).mp hs with rfl | hold
      · exact hnew
      · exact h.apart fd hold
    · rw [accepted] at hserial
      rw [destructions] at hdestructions
      rcases Nat.lt_succ_iff_lt_or_eq.mp hserial with hlt | rfl
      · obtain ⟨b, d, hd, hds⟩ := h.serials serial hlt hdestructions
        have hb : b ≠ answer.connection := by
          rintro rfl
          cases hfree.symm.trans hd
        exact ⟨b, d, by rw [connections, Function.update_of_ne hb, hd], hds⟩
      · exact ⟨answer.connection, _, by rw [connections, Function.update_self], rfl⟩
  | callback address c http delivery label found called connections accepted descriptors
      destructions spared =>
    refine h.replace hkept found ?_ connections descriptors ?_
    · rintro c' ⟨⟩
      refine ⟨rfl, fun hopen => ?_⟩
      rcases (HTTPConnection.finishEffect_step delivery.2 c.http).ok called with
        ⟨-, hsame⟩ | ⟨-, hclosed⟩
      · exact hsame.symm.trans hopen
      · exact hclosed hopen
    · intro serial hserial hdestructions
      rw [accepted] at hserial
      rw [destructions] at hdestructions
      obtain ⟨b, d, hd, hds⟩ := h.serials serial hserial hdestructions
      by_cases hb : b = address
      · subst hb
        cases found.symm.trans hd
        exact ⟨b, { c with http := http }, by rw [connections, Function.update_self], hds⟩
      · exact ⟨b, d, by rw [connections, Function.update_of_ne hb, hd], hds⟩
  | destroy address c label found connections accepted descriptors destructions spared =>
    refine h.replace hkept found (by simp) connections descriptors ?_
    intro serial hserial hdestructions
    rw [accepted] at hserial
    rw [destructions, List.append_eq_nil_iff] at hdestructions
    obtain ⟨b, d, hd, hds⟩ := h.serials serial hserial hdestructions.1
    have hb : b ≠ address := by
      rintro rfl
      cases found.symm.trans hd
      simp [hds] at hdestructions
    exact ⟨b, d, by rw [connections, Function.update_of_ne hb, hd], hds⟩

theorem ledgered_start (u : ServerSetup) : u.start.Ledgered u := by
  have hsocket : ∀ fd, ¬ u.start.HasSocket fd := by
    rintro fd ⟨address, c, hc, -⟩
    cases hc
  have hdescriptors : u.start.descriptors = [u.listenFd, u.signalFd] := rfl
  refine ⟨?_, fun fd => ?_, fun fd hfd => absurd hfd (hsocket fd), ?_⟩
  · simpa [hdescriptors] using u.fds.symm
  · simp [hdescriptors, hsocket fd]
  · intro serial hserial
    exact absurd hserial (Nat.not_lt_zero serial)

/-- The run lemma. -/
theorem ledgered_run {is : List ServerInput} {s : HTTPServer}
    (hs : run (step parseUrl serverName) is u.start = .ok s) : s.Kept ∧ s.Ledgered u := by
  refine CallOutcome.run_history (step parseUrl serverName)
    (I := fun _ s => Kept s ∧ s.Ledgered u) ⟨kept_start u, ledgered_start u⟩ ?_ hs
  intro _ i s t h ht
  have hproceeds := h.1.step parseUrl serverName i
  rw [ht] at hproceeds
  exact ⟨hproceeds, h.2.change h.1 (h.1.change ht)⟩

/-- The connections that were accepted and not destroyed. -/
def aliveSerials (s : HTTPServer) : Finset Nat :=
  (Finset.range s.accepted).filter fun serial => s.destructions serial = []

/-- Between two batches no connection is to finish, and every socket is open. -/
theorem Kept.open_of_waiting {s : HTTPServer} (h : s.Kept) (hphase : s.phase = .waiting)
    {address : Nat} {c : ServerConnection} (hc : s.connections address = some c) :
    c.finished = 0 ∧ c.isOpen = true := by
  have hnot : ¬ 0 < c.finished := by
    intro hpos
    have hmem := (h.scheduled.mem_iff address).mpr ⟨c, hc, hpos⟩
    simp [h.scheduled.idle hphase] at hmem
  refine ⟨Nat.eq_zero_of_not_pos hnot, ?_⟩
  by_contra hshut
  exact hnot (h.scheduled.closed address c hc (by simpa using hshut))

/-- One socket for each connection that is alive, by its serial. -/
theorem Ledgered.card_sockets {s : HTTPServer} (h : s.Ledgered u) (hkept : s.Kept)
    (hphase : s.phase = .waiting) : s.aliveSerials.card =
      ((s.descriptors.toFinset.erase u.listenFd).erase u.signalFd).card := by
  have halive : ∀ serial ∈ s.aliveSerials, ∃ fd address c, s.connections address = some c ∧
      c.serial = serial ∧ c.isOpen = true ∧ c.fd = fd := by
    intro serial hmem
    obtain ⟨hserial, hdestructions⟩ := Finset.mem_filter.mp hmem
    obtain ⟨address, c, hc, hcs⟩ := h.serials serial (Finset.mem_range.mp hserial) hdestructions
    exact ⟨c.fd, address, c, hc, hcs, (hkept.open_of_waiting hphase hc).2, rfl⟩
  choose fdOf hfd using halive
  refine Finset.card_bij fdOf ?_ ?_ ?_
  · intro serial hmem
    obtain ⟨address, c, hc, -, hopen, hcfd⟩ := hfd serial hmem
    have hsocket : s.HasSocket (fdOf serial hmem) := ⟨address, c, hc, hopen, hcfd⟩
    obtain ⟨hlisten, hsignal⟩ := h.apart _ hsocket
    simp only [Finset.mem_erase, List.mem_toFinset, h.mem_iff]
    exact ⟨hsignal, hlisten, .inr (.inr hsocket)⟩
  · intro a ha b hb hab
    obtain ⟨addressA, c, hc, hcs, hcopen, hcfd⟩ := hfd a ha
    obtain ⟨addressB, d, hd, hds, hdopen, hdfd⟩ := hfd b hb
    have haddress := hkept.address_eq hc hd hcopen hdopen (hcfd.trans (hab.trans hdfd.symm))
    rw [haddress, hd] at hc
    cases hc
    exact hcs.symm.trans hds
  · intro fd hmem
    simp only [Finset.mem_erase, List.mem_toFinset, h.mem_iff] at hmem
    obtain ⟨hsignal, hlisten, hold⟩ := hmem
    obtain ⟨address, c, hc, hcopen, rfl⟩ : s.HasSocket fd := by tauto
    have hmem' : c.serial ∈ s.aliveSerials :=
      Finset.mem_filter.mpr ⟨Finset.mem_range.mpr (hkept.recorded.serials address c hc),
        hkept.recorded.alive address c hc⟩
    obtain ⟨other, d, hd, hds, -, hdfd⟩ := hfd c.serial hmem'
    have haddress := hkept.recorded.distinct other address d c hd hc hds
    rw [haddress, hc] at hd
    cases hd
    exact ⟨c.serial, hmem', hdfd.symm⟩

/-- In every run the open descriptors are the two of the program and the sockets
of its connections, each once, and between two batches there are as many
sockets as connections that were accepted and not destroyed. -/
theorem descriptors_accounted (parseUrl : ParseUrl) (serverName : Bytes) (u : ServerSetup)
    {is : List ServerInput} {s : HTTPServer}
    (hs : run (step parseUrl serverName) is u.start = .ok s) :
    s.Ledgered u ∧ (s.phase = .waiting → s.descriptors.length = s.aliveSerials.card + 2) := by
  obtain ⟨hkept, h⟩ := ledgered_run hs
  refine ⟨h, fun hphase => ?_⟩
  have hlisten : u.listenFd ∈ s.descriptors.toFinset :=
    List.mem_toFinset.mpr ((h.mem_iff _).mpr (.inl rfl))
  have hsignal : u.signalFd ∈ s.descriptors.toFinset.erase u.listenFd :=
    Finset.mem_erase.mpr ⟨u.fds, List.mem_toFinset.mpr ((h.mem_iff _).mpr (.inr (.inl rfl)))⟩
  have hcards := Finset.card_erase_add_one hsignal
  have hcards' := Finset.card_erase_add_one hlisten
  rw [h.card_sockets hkept hphase, ← List.toFinset_card_of_nodup h.nodup]
  omega

/-- Both clients are there, and nobody else has a descriptor. -/
theorem descriptors_accounted_twoClients : ∃ s,
    run (step parsePath (ascii "rapp")) twoClients clientSetup.start = .ok s ∧
      s.Ledgered clientSetup ∧
      (s.phase = .waiting → s.descriptors.length = s.aliveSerials.card + 2) := by
  obtain ⟨s, hs, -⟩ := run_twoClients
  exact ⟨s, hs, descriptors_accounted parsePath (ascii "rapp") clientSetup hs⟩

end HTTPServer

end Rapp
