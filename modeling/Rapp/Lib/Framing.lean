import Mathlib.Data.List.Basic

/-!
# Framed streams

Readers that take a value off the front of a stream or wait for more of it. A
text is framed when its reader finds its end whatever follows, and takes no
proper front of it for anything. A stream of framed texts then reads back, and
a part of it that has arrived reads back as its complete texts.
-/
namespace StreamFraming

variable {α β γ : Type}

/-- A value and the rest of the stream; none while the stream may go on with it. -/
abbrev Reader (α : Type) := StateT (List α) Option

structure Frames (reader : Reader α β) (text : List α) (value : β) : Prop where
  reads : ∀ rest, reader (text ++ rest) = some (value, rest)
  waits : ∀ front back, text = front ++ back → back ≠ [] → reader front = none

theorem Frames.pure (value : β) : Frames (pure value : Reader α β) [] value where
  reads _ := rfl
  waits _ _ h hback := absurd (List.append_eq_nil_iff.mp h.symm).2 hback

theorem bind_apply (first : Reader α β) (next : β → Reader α γ) (stream : List α) :
    (first >>= next) stream = (first stream).bind fun result => next result.1 result.2 := rfl

/-- A front of two texts holds the first one in full, or a proper front of it. -/
theorem front_of_append {text text' front back : List α} (h : text ++ text' = front ++ back) :
    (∃ more, front = text ++ more ∧ text' = more ++ back) ∨
      ∃ missing, missing ≠ [] ∧ text = front ++ missing := by
  rcases List.append_eq_append_iff.mp h with hfull | ⟨missing, htext, hback⟩
  · exact .inl hfull
  · cases missing with
    | nil => exact .inl ⟨[], by rw [htext, List.append_nil, List.append_nil], hback.symm⟩
    | cons x missing => exact .inr ⟨x :: missing, by simp, htext⟩

theorem Frames.bind {first : Reader α β} {next : β → Reader α γ} {text text' : List α} {value : β}
    {value' : γ} (h : Frames first text value) (h' : Frames (next value) text' value') :
    Frames (first >>= next) (text ++ text') value' where
  reads rest := by
    rw [bind_apply, List.append_assoc, h.reads, Option.bind_some]
    exact h'.reads rest
  waits front back hsplit hback := by
    rw [bind_apply]
    rcases front_of_append hsplit with ⟨more, rfl, htext'⟩ | ⟨missing, hmissing, htext⟩
    · rw [h.reads, Option.bind_some]
      exact h'.waits more back htext' hback
    · rw [h.waits front missing htext hmissing, Option.bind_none]

theorem Frames.map {reader : Reader α β} {text : List α} {value : β} (h : Frames reader text value)
    (f : β → γ) : Frames (f <$> reader) text (f value) := by
  have hmap : f <$> reader = reader >>= fun value => (Pure.pure (f value) : Reader α γ) :=
    (bind_pure_comp f reader).symm
  rw [hmap, ← List.append_nil text]
  exact h.bind (.pure (f value))

/-! ### Texts that end at a separator -/

/-- The elements before the separator, which is taken too. -/
def upTo [DecidableEq α] (separator : List α) : Reader α (List α)
  | [] => none
  | x :: stream =>
    if separator.isPrefixOf (x :: stream) then
      some ([], (x :: stream).drop separator.length)
    else (upTo separator stream).map fun result => (x :: result.1, result.2)

/-- In the line with the separator behind it, the separator is at the end only. -/
def Ends (separator line : List α) : Prop :=
  ∀ front back, line ++ separator = front ++ separator ++ back → back = []

theorem Ends.tail {separator line : List α} {x : α} (h : Ends separator (x :: line)) :
    Ends separator line := by
  intro front back hsplit
  refine h (x :: front) back ?_
  rw [List.cons_append, hsplit]
  rfl

/-- Two different elements end every line they are not in next to each other. -/
theorem ends_pair {x y : α} (hne : x ≠ y) {line : List α} (h : ¬ [x, y] <:+: line) :
    Ends [x, y] line := by
  intro front back hsplit
  induction line generalizing front with
  | nil =>
    have hlength := congrArg List.length hsplit
    simp only [List.length_append, List.length_cons, List.length_nil] at hlength
    exact List.eq_nil_of_length_eq_zero (by omega)
  | cons z line ih =>
    cases front with
    | cons w front =>
      refine ih (fun hinside => h (hinside.trans (List.suffix_cons z line).isInfix)) front ?_
      simp only [List.cons_append] at hsplit
      rw [(List.cons_eq_cons.mp hsplit).2]
    | nil =>
      -- the line begins with the first of the two, the second one does not follow
      exfalso
      cases line with
      | nil => simp_all
      | cons w line =>
        simp only [List.cons_append, List.nil_append, List.cons.injEq] at hsplit
        obtain ⟨rfl, rfl, -⟩ := hsplit
        exact h ⟨[], line, rfl⟩

theorem ends_pair_iff {x y : α} (hne : x ≠ y) {line : List α} :
    Ends [x, y] line ↔ ¬ [x, y] <:+: line := by
  refine ⟨?_, ends_pair hne⟩
  rintro h ⟨front, back, rfl⟩
  have hnil := h front (back ++ [x, y]) (by simp)
  simp at hnil

variable [DecidableEq α]

theorem upTo_eq_some {separator stream line rest : List α}
    (h : upTo separator stream = some (line, rest)) : stream = line ++ separator ++ rest := by
  induction stream generalizing line with
  | nil => cases h
  | cons x stream ih =>
    simp only [upTo] at h
    split at h
    · rename_i hfront
      obtain ⟨back, hback⟩ := List.isPrefixOf_iff_prefix.mp hfront
      cases h
      rw [List.nil_append, ← hback, List.drop_left]
    · obtain ⟨result, hresult, heq⟩ := Option.map_eq_some_iff.mp h
      cases heq
      rw [ih hresult]
      rfl

theorem upTo_append {separator line : List α} (hsep : separator ≠ []) (h : Ends separator line)
    (rest : List α) : upTo separator (line ++ separator ++ rest) = some (line, rest) := by
  induction line with
  | nil =>
    obtain ⟨x, separator, rfl⟩ := List.exists_cons_of_ne_nil hsep
    simp [upTo, List.isPrefixOf_iff_prefix]
  | cons x line ih =>
    have hnot : ¬ separator.isPrefixOf (x :: (line ++ separator ++ rest)) = true := by
      intro hfront
      have hshort : separator <+: x :: line ++ separator := by
        refine List.prefix_of_prefix_length_le (List.isPrefixOf_iff_prefix.mp hfront)
          ⟨rest, by simp⟩ ?_
        simp only [List.length_append, List.length_cons]
        omega
      obtain ⟨back, hback⟩ := hshort
      have hnil := h [] back hback.symm
      have hlength := congrArg List.length hback
      simp only [hnil, List.append_nil, List.length_append, List.length_cons] at hlength
      omega
    rw [List.cons_append, List.cons_append, upTo, if_neg hnot, ih h.tail]
    rfl

theorem frames_upTo {separator line : List α} (hsep : separator ≠ []) (h : Ends separator line) :
    Frames (upTo separator) (line ++ separator) line where
  reads := upTo_append hsep h
  waits front back hsplit hback := by
    cases hread : upTo separator front with
    | none => rfl
    | some result =>
      have hfront := upTo_eq_some hread
      rw [hfront, List.append_assoc] at hsplit
      exact absurd (List.append_eq_nil_iff.mp (h _ _ hsplit)).2 hback

/-- The first occurrence is what is found. -/
theorem upTo_le {separator : List α} (front back : List α) (hsep : separator ≠ []) :
    ∃ line rest, upTo separator (front ++ separator ++ back) = some (line, rest) ∧
      line.length ≤ front.length := by
  induction front with
  | nil =>
    obtain ⟨x, separator, rfl⟩ := List.exists_cons_of_ne_nil hsep
    exact ⟨[], back, by simp [upTo, List.isPrefixOf_iff_prefix], Nat.le_refl _⟩
  | cons x front ih =>
    obtain ⟨line, rest, hread, hle⟩ := ih
    rw [List.cons_append, List.cons_append, upTo]
    split
    · exact ⟨[], _, rfl, Nat.zero_le _⟩
    · exact ⟨x :: line, rest, by rw [hread]; rfl, Nat.succ_le_succ hle⟩

/-- A line is read back exactly when the separator ends it. -/
theorem upTo_append_iff {separator line rest : List α} (hsep : separator ≠ []) :
    upTo separator (line ++ separator ++ rest) = some (line, rest) ↔ Ends separator line := by
  constructor
  · intro hread front back hsplit
    obtain ⟨line', rest', hfirst, hle⟩ := upTo_le front (back ++ rest) hsep
    rw [← List.append_assoc, ← hsplit, hread] at hfirst
    cases hfirst
    have hlength := congrArg List.length hsplit
    simp only [List.length_append] at hlength
    exact List.eq_nil_of_length_eq_zero (by omega)
  · intro h
    exact upTo_append hsep h rest

omit [DecidableEq α]

/-! ### Texts of a known length -/

def exactly (count : Nat) : Reader α (List α) := fun stream =>
  if count ≤ stream.length then some (stream.take count, stream.drop count) else none

theorem frames_exactly (text : List α) : Frames (exactly text.length) text text where
  reads rest := by simp [exactly]
  waits front back hsplit hback := by
    refine if_neg ?_
    have hlength := congrArg List.length hsplit
    have hpos := List.length_pos_iff.mpr hback
    rw [List.length_append] at hlength
    omega

/-! ### Texts one behind the other -/

/-- Items until the one that closes them. -/
def items (item : Reader α (Option β)) : Nat → Reader α (List β)
  | 0, _ => none
  | fuel + 1, stream => (item stream).bind fun result =>
    match result.1 with
    | none => some ([], result.2)
    | some value => (items item fuel result.2).map fun later => (value :: later.1, later.2)

def itemsUntil (item : Reader α (Option β)) : Reader α (List β) := fun stream =>
  items item stream.length stream

/-- Texts with what they are read as. -/
def texts (frames : List (List α × β)) : List α := (frames.map Prod.fst).flatten

@[simp] theorem texts_nil : texts ([] : List (List α × β)) = [] := rfl
@[simp] theorem texts_cons (frame : List α × β) (frames : List (List α × β)) :
    texts (frame :: frames) = frame.1 ++ texts frames := rfl
@[simp] theorem texts_append (frames frames' : List (List α × β)) :
    texts (frames ++ frames') = texts frames ++ texts frames' := by
  simp [texts]

theorem items_reads {item : Reader α (Option β)} {close : List α} (hclose : Frames item close none)
    {frames : List (List α × β)} (h : ∀ frame ∈ frames, Frames item frame.1 (some frame.2))
    {fuel : Nat} (hfuel : frames.length < fuel) (rest : List α) :
    items item fuel (texts frames ++ close ++ rest) = some (frames.map Prod.snd, rest) := by
  induction frames generalizing fuel with
  | nil =>
    obtain ⟨fuel, rfl⟩ := Nat.exists_eq_succ_of_ne_zero (Nat.ne_zero_of_lt hfuel)
    rw [texts_nil, List.nil_append, items, hclose.reads, Option.bind_some, List.map_nil]
  | cons frame frames ih =>
    obtain ⟨fuel, rfl⟩ := Nat.exists_eq_succ_of_ne_zero (Nat.ne_zero_of_lt hfuel)
    have hread := (h frame (by simp)).reads (texts frames ++ close ++ rest)
    have hlater := ih (fun frame hmem => h frame (by simp [hmem])) (Nat.succ_lt_succ_iff.mp hfuel)
    simp only [texts_cons, List.map_cons, List.append_assoc] at hread hlater ⊢
    simp only [items, hread, Option.bind_some, hlater, Option.map_some]

theorem items_waits {item : Reader α (Option β)} {close : List α} (hclose : Frames item close none)
    {frames : List (List α × β)} (h : ∀ frame ∈ frames, Frames item frame.1 (some frame.2))
    (fuel : Nat) {front back : List α} (hsplit : texts frames ++ close = front ++ back)
    (hback : back ≠ []) : items item fuel front = none := by
  induction frames generalizing fuel front with
  | nil =>
    cases fuel with
    | zero => rfl
    | succ fuel => simp only [items, hclose.waits front back hsplit hback, Option.bind_none]
  | cons frame frames ih =>
    cases fuel with
    | zero => rfl
    | succ fuel =>
      have hframe := h frame (by simp)
      rw [texts_cons, List.append_assoc] at hsplit
      rcases front_of_append hsplit with ⟨more, rfl, hlater⟩ | ⟨missing, hmissing, htext⟩
      · have hnone := ih (fun frame hmem => h frame (by simp [hmem])) fuel hlater
        simp only [items, hframe.reads, Option.bind_some, hnone, Option.map_none]
      · simp only [items, hframe.waits front missing htext hmissing, Option.bind_none]

theorem length_le_texts {frames : List (List α × β)} (h : ∀ frame ∈ frames, frame.1 ≠ []) :
    frames.length ≤ (texts frames).length := by
  induction frames with
  | nil => exact Nat.zero_le _
  | cons frame frames ih =>
    have hpos := List.length_pos_iff.mpr (h frame (by simp))
    have hlater := ih fun frame hmem => h frame (by simp [hmem])
    simp only [texts_cons, List.length_append, List.length_cons] at hlater ⊢
    omega

theorem frames_itemsUntil {item : Reader α (Option β)} {close : List α}
    (hclose : Frames item close none) (hend : close ≠ []) {frames : List (List α × β)}
    (h : ∀ frame ∈ frames, Frames item frame.1 (some frame.2) ∧ frame.1 ≠ []) :
    Frames (itemsUntil item) (texts frames ++ close) (frames.map Prod.snd) where
  reads rest := by
    refine items_reads hclose (fun frame hmem => (h frame hmem).1) ?_ rest
    have hlength := length_le_texts fun frame hmem => (h frame hmem).2
    have hpos := List.length_pos_iff.mpr hend
    simp only [List.length_append]
    omega
  waits front back hsplit hback :=
    items_waits hclose (fun frame hmem => (h frame hmem).1) front.length hsplit hback

/-! ### Streams -/

/-- As many values as the stream holds, and what is left of it. -/
def arrived (reader : Reader α β) : Nat → List α → List β × List α
  | 0, stream => ([], stream)
  | fuel + 1, stream =>
    match reader stream with
    | none => ([], stream)
    | some (value, rest) => (value :: (arrived reader fuel rest).1, (arrived reader fuel rest).2)

def receive (reader : Reader α β) (stream : List α) : List β × List α :=
  arrived reader stream.length stream

/-- The values of the first frames, and a proper front of the text of the next one. -/
def Received (frames : List (List α × β)) (stream : List α) (result : List β × List α) : Prop :=
  ∃ complete later, frames = complete ++ later ∧ result.1 = complete.map Prod.snd ∧
    stream = texts complete ++ result.2 ∧
    (later = [] ∧ result.2 = [] ∨
      ∃ frame more, later = frame :: more ∧ ∃ missing, missing ≠ [] ∧ frame.1 = result.2 ++ missing)

theorem Frames.ne_nil {reader : Reader α β} {text : List α} {value : β}
    (h : Frames reader text value) (hempty : reader [] = none) : text ≠ [] := by
  rintro rfl
  have hread := h.reads []
  rw [List.append_nil, hempty] at hread
  cases hread

theorem arrived_received {reader : Reader α β} (hempty : reader [] = none)
    {frames : List (List α × β)} (h : ∀ frame ∈ frames, Frames reader frame.1 frame.2) {fuel : Nat}
    {stream back : List α} (hfuel : stream.length ≤ fuel) (hsplit : texts frames = stream ++ back) :
    Received frames stream (arrived reader fuel stream) := by
  have hwaits : ∀ fuel stream, reader stream = none →
      arrived reader fuel stream = ([], stream) := by
    intro fuel stream hnone
    cases fuel with
    | zero => rfl
    | succ fuel => rw [arrived, hnone]
  induction frames generalizing fuel stream with
  | nil =>
    obtain ⟨rfl, rfl⟩ := List.append_eq_nil_iff.mp hsplit.symm
    rw [hwaits fuel [] hempty]
    exact ⟨[], [], rfl, rfl, rfl, .inl ⟨rfl, rfl⟩⟩
  | cons frame frames ih =>
    have hframe := h frame (by simp)
    rw [texts_cons] at hsplit
    rcases front_of_append hsplit with ⟨more, rfl, hlater⟩ | ⟨missing, hmissing, htext⟩
    · -- the first frame has arrived
      have hpos := List.length_pos_iff.mpr (hframe.ne_nil hempty)
      rw [List.length_append] at hfuel
      obtain ⟨fuel, rfl⟩ := Nat.exists_eq_succ_of_ne_zero (n := fuel) (by omega)
      have hmore : more.length ≤ fuel := by omega
      obtain ⟨complete, later, rfl, hvalues, hstream, hrest⟩ :=
        ih (fun frame hmem => h frame (by simp [hmem])) hmore hlater
      simp only [arrived, hframe.reads]
      refine ⟨frame :: complete, later, rfl, ?_, ?_, hrest⟩
      · rw [hvalues, List.map_cons]
      · rw [texts_cons, List.append_assoc, ← hstream]
    · rw [hwaits fuel stream (hframe.waits stream missing htext hmissing)]
      exact ⟨[], frame :: frames, rfl, rfl, rfl,
        .inr ⟨frame, frames, rfl, missing, hmissing, htext⟩⟩

/-- A part of a stream of frames reads back as the frames that are complete in it. -/
theorem receive_received {reader : Reader α β} (hempty : reader [] = none)
    {frames : List (List α × β)} (h : ∀ frame ∈ frames, Frames reader frame.1 frame.2)
    {stream : List α} (hfront : stream <+: texts frames) :
    Received frames stream (receive reader stream) := by
  obtain ⟨back, hback⟩ := hfront
  exact arrived_received hempty h (Nat.le_refl _) hback.symm

/-- A stream that has arrived in full reads back in full. -/
theorem Received.all {frames : List (List α × β)} {stream : List α} {result : List β × List α}
    (h : Received frames stream result) (hfull : stream = texts frames) :
    result = (frames.map Prod.snd, []) := by
  obtain ⟨complete, later, rfl, hvalues, hstream, hlater⟩ := h
  rcases hlater with ⟨rfl, hrest⟩ | ⟨frame, more, rfl, missing, hmissing, htext⟩
  · rw [List.append_nil, ← hvalues, ← hrest]
  · -- what is missing of the next frame would be missing of the stream
    rw [hstream, texts_append, texts_cons, htext] at hfull
    have hlength := congrArg List.length hfull
    have hpos := List.length_pos_iff.mpr hmissing
    simp only [List.length_append] at hlength
    omega

end StreamFraming
