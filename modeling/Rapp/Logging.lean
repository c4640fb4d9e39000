import Rapp.ConfigCommandline
import Rapp.ResponseWriters
import Mathlib.Tactic.IntervalCases

/-!
# Logging

`logger.c`, and the early options of `config/commandline.c` that `main` makes
its logger from. What `vfprintf` makes of a format with the arguments of a call
is given with the call, as is the answer of the allocator.
-/
namespace Rapp

open CallOutcome (Outcome run run_cons)
open ByteBlock

/-- An enumeration without negative values is unsigned; -1 is the largest one. -/
abbrev LogLevel := Nat

abbrev logCritical : LogLevel := 0
abbrev logError : LogLevel := 1
abbrev logWarning : LogLevel := 2
abbrev logInfo : LogLevel := 3
abbrev logDebug : LogLevel := 4
abbrev logMark : LogLevel := 5

/-- `CLAMP(level, LOG_ERROR, LOG_MARK)` -/
def clampLevel (level : LogLevel) : LogLevel := min (max logError level) logMark

/-- `COL` -/
def col (code : String) : Bytes := ascii ("\x1b[" ++ code ++ ";1m")

def colGray : Bytes := ascii "\x1b[0m"

def loggerTemplates : List Bytes :=
  [col "31" ++ ascii "CRI [%s]: %s" ++ colGray ++ ascii "\n",
    col "31" ++ ascii "ERR [%s]" ++ colGray ++ ascii ": %s\n",
    col "33" ++ ascii "WRN [%s]" ++ colGray ++ ascii ": %s\n",
    col "32" ++ ascii "INF [%s]" ++ colGray ++ ascii ": %s\n",
    col "34" ++ ascii "DBG [%s]" ++ colGray ++ ascii ": %s\n",
    ascii "%s%s",
    ascii "%s%s"]

def loggerTemplate (level : LogLevel) : Option Bytes := loggerTemplates[level - logCritical]?

/-- What `printf` makes of a format whose only directives are `%s`. -/
def formatStrings : Bytes → List Bytes → Bytes
  | 37 :: 115 :: rest, arg :: args => arg ++ formatStrings rest args
  | byte :: rest, args => byte :: formatStrings rest args
  | [], _ => []

abbrev logBufSize : Nat := 1024
abbrev logTemplateLen : Nat := 32

/-- The result of `logger_trace_console`, the format it hands to `vfprintf`, and
whether it panicked before. -/
structure Traced where
  result : Int
  format : Bytes
  panicked : Bool
  deriving DecidableEq

/-- A level without a template is read from outside of the table. -/
def loggerTraceConsole (level : LogLevel) (tag fmt : Bytes) (allocated : Bool) : Option Traced :=
  let tag := if level = logMark then [] else tag
  let size := logTemplateLen + tag.length + fmt.length + 1
  (loggerTemplate level).map fun template =>
    let text := formatStrings template [tag, fmt]
    if logBufSize < size then
      if allocated then ⟨0, snprintf size text, false⟩
      else ⟨1, snprintf (logBufSize - 1) text, true⟩
    else ⟨0, snprintf (logBufSize - 1) text, false⟩

def loggerTraceFile (_level : LogLevel) (tag fmt : Bytes) (allocated : Bool) : Option Traced :=
  loggerTraceConsole logMark tag fmt allocated

/-- `logger_trace_console` or `logger_trace_file`. -/
inductive LogStream where
  | console
  | file
  deriving DecidableEq

/-- A handler of a user, from its data on; with the arguments comes what `vfprintf`
makes of a format with them. -/
abbrev LogHandlerCallback (δ : Type) :=
  δ → LogLevel → Bytes → Bytes → (Bytes → Bytes) → Int × δ

inductive LogHandler (δ : Type) where
  | stream (stream : LogStream)
  | null
  | custom (callback : LogHandlerCallback δ)

/-- `sink` is what was written to the stream of the logger, `data` what a handler of
the user works on. -/
structure Logger (δ : Type) where
  handler : LogHandler δ
  maxLevel : LogLevel
  sink : Bytes
  panics : Nat
  data : δ

/-- A call of `logger_trace`. `vfprintf` copies what stands before and behind the
whole format of a call, unless that has directives of its own. -/
structure LogCall where
  level : LogLevel
  tag : Bytes
  fmt : Bytes
  vfprintf : Bytes → Bytes
  copies : ∀ before after, 37 ∉ before → 37 ∉ after →
    vfprintf (before ++ fmt ++ after) = before ++ vfprintf fmt ++ after
  allocated : Bool

inductive LogFault where
  | template (level : LogLevel)

namespace Logger

variable {δ : Type}

def newFp (stream : LogStream) (maxLevel : LogLevel) : Logger Unit :=
  ⟨.stream stream, clampLevel maxLevel, [], 0, ()⟩

def newFile (maxLevel : LogLevel) : Logger Unit := newFp .file maxLevel
def newConsole (maxLevel : LogLevel) : Logger Unit := newFp .console maxLevel

def newCustom (maxLevel : LogLevel) (callback : LogHandlerCallback δ) (data : δ) : Logger δ :=
  ⟨.custom callback, clampLevel maxLevel, [], 0, data⟩

def newNull : Logger Unit := ⟨.null, 2 ^ 32 - 1, [], 0, ()⟩

/-- What a handler does with the text is the same for both kinds of stream. -/
def deliver (call : LogCall) (level : LogLevel) (traced : Option Traced) (s : Logger δ) :
    Outcome LogFault (Int × Logger δ) :=
  match traced with
  | none => .undefined (.template level)
  | some traced => .ok (traced.result, { s with
      sink := s.sink ++ call.vfprintf traced.format
      panics := s.panics + if traced.panicked then 1 else 0 })

def traceVa (call : LogCall) (s : Logger δ) : Outcome LogFault (Int × Logger δ) :=
  let level := clampLevel call.level
  if level ≤ s.maxLevel then
    match s.handler with
    | .stream .console =>
      s.deliver call level (loggerTraceConsole level call.tag call.fmt call.allocated)
    | .stream .file =>
      s.deliver call level (loggerTraceFile level call.tag call.fmt call.allocated)
    | .null => .ok (0, s)
    | .custom callback =>
      let result := callback s.data level call.tag call.fmt call.vfprintf
      .ok (result.1, { s with data := result.2 })
  else .ok (0, s)

def step (call : LogCall) (s : Logger δ) : Outcome LogFault (Logger δ) :=
  (s.traceVa call).map Prod.snd

end Logger

/-! ### The early options -/

abbrev argLoglevel : Int := argIndexBase + 0
abbrev argLogoutput : Int := argIndexBase + 1
abbrev argLognocolor : Int := argIndexBase + 2
abbrev argLoad : Int := argIndexBase + 3

inductive LogOutput where
  | stderr
  | stdout
  | file (path : Bytes)
  deriving DecidableEq

structure RappArguments where
  loglevel : LogLevel
  logoutputIsConsole : Bool
  logoutput : Option LogOutput
  lognocolor : Bool
  container : Option Bytes
  deriving DecidableEq

/-- A call of the parser, and whether `fopen` opens its argument if it is asked to. -/
structure EarlyCall extends ArgpCall where
  opens : Bool

def levelNames : List (Bytes × LogLevel) :=
  [(ascii "CRITICAL", logCritical), (ascii "ERROR", logError), (ascii "WARN", logWarning),
    (ascii "INFO", logInfo), (ascii "DEBUG", logDebug)]

def levelOfName (arg : Bytes) : Option LogLevel :=
  (levelNames.find? fun name => HTTPRequest.strcasecmp arg name.1).map Prod.snd

namespace RappArguments

/-- The defaults of `config_parse_early_commandline`. -/
def default : RappArguments := ⟨logInfo, true, some .stderr, false, none⟩

def parseEarlyOpt (call : EarlyCall) (arguments : RappArguments) : Int × RappArguments :=
  if call.key = argLoglevel then
    match call.arg with
    | none => (einval, arguments)
    | some arg =>
      match levelOfName arg with
      | none => (0, arguments)
      | some lvl => (0, { arguments with loglevel := lvl })
  else if call.key = argLogoutput then
    match call.arg with
    | none => (einval, { arguments with logoutput := none })
    | some arg =>
      if arg = ascii "-" then (0, { arguments with logoutput := some .stdout })
      else if call.opens then
        (0, { arguments with logoutputIsConsole := false, logoutput := some (.file arg) })
      else (einval, { arguments with logoutputIsConsole := false, logoutput := none })
  else if call.key = argLognocolor then (0, { arguments with lognocolor := true })
  else if call.key = argLoad then
    match call.arg with
    | none => (einval, arguments)
    | some arg => (0, { arguments with container := some arg })
  else (0, arguments)

def step (call : EarlyCall) (arguments : RappArguments) : Outcome Empty RappArguments :=
  let result := parseEarlyOpt call arguments
  if result.1 = 0 then .ok result.2 else .failed result.2

def parseEarlyCommandline (calls : List EarlyCall) : Outcome Empty RappArguments :=
  run step calls default

/-- The logger of `main`, and where it writes; `main` does not look at the result
of the parser. Without an output it exits. -/
def startLogger (parsed : Outcome Empty RappArguments) : Option (LogOutput × Logger Unit) :=
  let arguments := match parsed with
    | .ok arguments => arguments
    | .failed arguments => arguments
  arguments.logoutput.map fun output =>
    (output, if arguments.logoutputIsConsole then Logger.newConsole arguments.loglevel
      else Logger.newFile arguments.loglevel)

end RappArguments

/-! ### The format of a line -/

/-- What stands around the tag and the message. -/
structure LineLayout where
  before : Bytes
  between : Bytes
  after : Bytes

namespace LineLayout

def fill (l : LineLayout) (tag message : Bytes) : Bytes :=
  l.before ++ (tag ++ (l.between ++ (message ++ l.after)))

/-- A line in color: the name of the level, the tag in brackets, and the message. -/
def colored (color name : String) : LineLayout :=
  ⟨col color ++ ascii (name ++ " ["), ascii "]" ++ colGray ++ ascii ": ", ascii "\n"⟩

def ofLevel : LogLevel → LineLayout
  | 0 => ⟨col "31" ++ ascii "CRI [", ascii "]: ", colGray ++ ascii "\n"⟩
  | 1 => colored "31" "ERR"
  | 2 => colored "33" "WRN"
  | 3 => colored "32" "INF"
  | 4 => colored "34" "DBG"
  | _ => ⟨[], [], []⟩

def Plain (l : LineLayout) : Prop := 37 ∉ l.before ∧ 37 ∉ l.between ∧ 37 ∉ l.after

instance (l : LineLayout) : Decidable l.Plain := inferInstanceAs (Decidable (_ ∧ _ ∧ _))

def overhead (l : LineLayout) : Nat := l.before.length + l.between.length + l.after.length

theorem fill_eq (l : LineLayout) (tag message : Bytes) :
    l.fill tag message = l.before ++ tag ++ l.between ++ message ++ l.after := by
  simp only [fill, List.append_assoc]

theorem fill_length (l : LineLayout) (tag message : Bytes) :
    (l.fill tag message).length = l.overhead + tag.length + message.length := by
  simp only [fill, overhead, List.length_append]
  omega

end LineLayout

theorem formatStrings_append {text : Bytes} (h : 37 ∉ text) (rest : Bytes) (args : List Bytes) :
    formatStrings (text ++ rest) args = text ++ formatStrings rest args := by
  induction text with
  | nil => rfl
  | cons byte text ih =>
    simp only [List.mem_cons, not_or] at h
    rw [List.cons_append, formatStrings, ih h.2, List.cons_append]
    intro _ _ _ _ hbyte
    exact absurd hbyte.symm h.1

theorem LineLayout.formatStrings_eq {l : LineLayout} (h : l.Plain) (tag message : Bytes) :
    formatStrings (l.fill (ascii "%s") (ascii "%s")) [tag, message] = l.fill tag message := by
  obtain ⟨hbefore, hbetween, hafter⟩ := h
  have hlast : formatStrings l.after [] = l.after := by
    have happend := formatStrings_append hafter [] []
    rwa [List.append_nil, formatStrings, List.append_nil] at happend
  rw [fill, formatStrings_append hbefore]
  change l.before ++ (tag ++ formatStrings (l.between ++ _) [message]) = _
  rw [formatStrings_append hbetween]
  change l.before ++ (tag ++ (l.between ++ (message ++ formatStrings l.after []))) = _
  rw [hlast, fill]

/-- The templates of the levels in use, which fit the length that is set aside. -/
theorem loggerTemplate_eq {level : LogLevel} (h : level ≤ logMark) :
    loggerTemplate level =
        some ((LineLayout.ofLevel level).fill (ascii "%s") (ascii "%s")) ∧
      (LineLayout.ofLevel level).Plain ∧ (LineLayout.ofLevel level).overhead ≤ 20 := by
  have hlevel : level ≤ 5 := h
  interval_cases level <;> exact ⟨rfl, by decide +kernel, by decide⟩

/-- The tag of a message that is to be written as it is. -/
def shownTag (level : LogLevel) (tag : Bytes) : Bytes := if level = logMark then [] else tag

/-- A format that does not fit the buffer, and no memory for a larger one. -/
def cutShort (level : LogLevel) (tag fmt : Bytes) (allocated : Bool) : Bool :=
  !allocated && decide (991 < (shownTag level tag).length + fmt.length)

/-- Tags and formats of any length: the format handed to `vfprintf` is the template
filled in. Where a large buffer is needed and there is no memory the call panics and
returns 1, and what is left is the front that fits the small one. -/
theorem traceConsole_eq {level : LogLevel} (h : level ≤ logMark) (tag fmt : Bytes)
    (allocated : Bool) : loggerTraceConsole level tag fmt allocated =
      let whole := (LineLayout.ofLevel level).fill (shownTag level tag) fmt
      some (if cutShort level tag fmt allocated then ⟨1, whole.take 1022, true⟩
        else ⟨0, whole, false⟩) := by
  obtain ⟨htemplate, hplain, hoverhead⟩ := loggerTemplate_eq h
  let text := (LineLayout.ofLevel level).fill (shownTag level tag) fmt
  have htext : formatStrings ((LineLayout.ofLevel level).fill (ascii "%s") (ascii "%s"))
      [shownTag level tag, fmt] = text := LineLayout.formatStrings_eq hplain _ _
  have hlength : text.length =
      (LineLayout.ofLevel level).overhead + (shownTag level tag).length + fmt.length :=
    LineLayout.fill_length _ _ _
  have hwhole : ∀ size, text.length ≤ size - 1 → snprintf size text = text := by
    intro size hsize
    rw [snprintf, List.take_of_length_le hsize]
  simp only [loggerTraceConsole, htemplate, Option.map_some, logTemplateLen, logBufSize, cutShort]
  rw [← shownTag, htext]
  by_cases hlarge : 991 < (shownTag level tag).length + fmt.length
  · rw [if_pos (by omega)]
    cases allocated with
    | true =>
      have hfits : text.length ≤ 32 + (shownTag level tag).length + fmt.length + 1 - 1 := by omega
      simp [hwhole _ hfits, text]
    | false => simp [hlarge, snprintf, text]
  · rw [if_neg (by omega), hwhole _ (by omega)]
    simp [hlarge, text]

/-! ### What is written -/

namespace LogCall

/-- A tag without directives, and memory for a format that does not fit the buffer. -/
def Written (call : LogCall) : Prop :=
  37 ∉ call.tag ∧ (call.allocated = true ∨ call.tag.length + call.fmt.length ≤ 991)

/-- The level a handler gives to the text: a file has no colors and no tags. -/
def shownLevel (stream : LogStream) (call : LogCall) : LogLevel :=
  if stream = .console then clampLevel call.level else logMark

def line (stream : LogStream) (call : LogCall) : Bytes :=
  (LineLayout.ofLevel (call.shownLevel stream)).fill
    (shownTag (call.shownLevel stream) call.tag) (call.vfprintf call.fmt)

def panics (stream : LogStream) (call : LogCall) : Bool :=
  cutShort (call.shownLevel stream) call.tag call.fmt call.allocated

/-- The format `vfprintf` is handed for the stream. -/
def handed (stream : LogStream) (call : LogCall) : Bytes :=
  let whole := (LineLayout.ofLevel (call.shownLevel stream)).fill
    (shownTag (call.shownLevel stream) call.tag) call.fmt
  if call.panics stream then whole.take 1022 else whole

theorem clampLevel_le (level : LogLevel) : clampLevel level ≤ logMark := Nat.min_le_right _ _

theorem shownLevel_le (stream : LogStream) (call : LogCall) :
    call.shownLevel stream ≤ logMark := by
  unfold shownLevel
  split
  · exact clampLevel_le _
  · exact Nat.le_refl _

/-- What `vfprintf` makes of the format that it is handed. -/
theorem Written.handed_eq {call : LogCall} (h : call.Written) (stream : LogStream) :
    call.panics stream = false ∧ call.vfprintf (call.handed stream) = call.line stream := by
  obtain ⟨htag, hmemory⟩ := h
  obtain ⟨-, ⟨hbefore, hbetween, hafter⟩, -⟩ := loggerTemplate_eq (call.shownLevel_le stream)
  have hshown : 37 ∉ shownTag (call.shownLevel stream) call.tag ∧
      (shownTag (call.shownLevel stream) call.tag).length ≤ call.tag.length := by
    unfold shownTag
    split
    · exact ⟨List.not_mem_nil, Nat.zero_le _⟩
    · exact ⟨htag, Nat.le_refl _⟩
  have hquiet : call.panics stream = false := by
    rcases hmemory with hmemory | hsmall
    · simp [panics, cutShort, hmemory]
    · rw [panics, cutShort, decide_eq_false (by omega), Bool.and_false]
  refine ⟨hquiet, ?_⟩
  rw [handed, hquiet, if_neg Bool.false_ne_true, LineLayout.fill_eq, call.copies _ _ _ hafter, line,
    LineLayout.fill_eq]
  simp only [List.mem_append, not_or]
  exact ⟨⟨hbefore, hshown.1⟩, hbetween⟩

end LogCall

namespace Logger

variable {δ : Type}

def admits (s : Logger δ) (call : LogCall) : Bool := decide (clampLevel call.level ≤ s.maxLevel)

/-- What the handler makes of a call that it gets. -/
def handle (s : Logger δ) (call : LogCall) : Logger δ :=
  match s.handler with
  | .stream stream => { s with
      sink := s.sink ++ call.vfprintf (call.handed stream)
      panics := s.panics + if call.panics stream then 1 else 0 }
  | .null => s
  | .custom callback => { s with
      data := (callback s.data (clampLevel call.level) call.tag call.fmt call.vfprintf).2 }

/-- Any call, of any level and length and whatever memory there is: no handler reads
outside of the table of templates. -/
theorem step_eq (call : LogCall) (s : Logger δ) :
    step call s = .ok (if s.admits call then s.handle call else s) := by
  by_cases hlevel : clampLevel call.level ≤ s.maxLevel
  swap
  · simp [step, traceVa, admits, hlevel]
  have hstream : ∀ stream, loggerTraceConsole (call.shownLevel stream) call.tag call.fmt
      call.allocated = _ := fun stream => traceConsole_eq (call.shownLevel_le stream) _ _ _
  simp only [step, traceVa, if_pos hlevel, admits, decide_eq_true hlevel, if_true, handle]
  cases hhandler : s.handler with
  | stream stream =>
    cases stream with
    | console =>
      have htraced := hstream .console
      rw [LogCall.shownLevel, if_pos rfl] at htraced
      simp only [htraced, deliver, Outcome.map_ok, LogCall.handed, LogCall.panics,
        LogCall.shownLevel, if_true]
      split <;> simp [hhandler]
    | file =>
      have htraced := hstream .file
      rw [LogCall.shownLevel, if_neg (by decide)] at htraced
      simp only [loggerTraceFile, htraced, deliver, Outcome.map_ok, LogCall.handed,
        LogCall.panics, LogCall.shownLevel, reduceCtorEq, if_false]
      split <;> simp [hhandler]
  | null => rfl
  | custom callback => rfl

theorem handle_handler (s : Logger δ) (call : LogCall) :
    (s.handle call).handler = s.handler ∧ (s.handle call).admits = s.admits := by
  unfold handle
  split <;> exact ⟨rfl, rfl⟩

/-- Calls in any order: the handler gets those that the level of the logger admits. -/
theorem run_eq (calls : List LogCall) (s : Logger δ) :
    run step calls s = .ok ((calls.filter s.admits).foldl handle s) := by
  induction calls generalizing s with
  | nil => rfl
  | cons call calls ih =>
    rw [run_cons, step_eq, Outcome.bind_ok]
    cases hcase : s.admits call with
    | false => rw [if_neg Bool.false_ne_true, ih, List.filter_cons_of_neg (by simp [hcase])]
    | true =>
      rw [if_pos rfl, ih, (s.handle_handler call).2, List.filter_cons_of_pos hcase,
        List.foldl_cons]

theorem foldl_handle_stream {s : Logger δ} {stream : LogStream} (h : s.handler = .stream stream)
    (calls : List LogCall) : calls.foldl handle s = { s with
      sink := s.sink ++ calls.flatMap fun call => call.vfprintf (call.handed stream)
      panics := s.panics + calls.countP (LogCall.panics stream) } := by
  induction calls generalizing s with
  | nil => simp
  | cons call calls ih =>
    have hnext : s.handle call = { s with
        sink := s.sink ++ call.vfprintf (call.handed stream)
        panics := s.panics + if call.panics stream then 1 else 0 } := by
      simp only [handle, h]
    rw [List.foldl_cons, ih ((s.handle_handler call).1.trans h), hnext, List.flatMap_cons,
      List.countP_cons]
    simp only [List.append_assoc, Nat.add_right_comm, Nat.add_assoc]

theorem foldl_handle_custom {s : Logger δ} {callback : LogHandlerCallback δ}
    (h : s.handler = .custom callback) (calls : List LogCall) : calls.foldl handle s = { s with
      data := calls.foldl (fun data call => (callback data (clampLevel call.level) call.tag
        call.fmt call.vfprintf).2) s.data } := by
  induction calls generalizing s with
  | nil => rfl
  | cons call calls ih =>
    have hnext : s.handle call = { s with
        data := (callback s.data (clampLevel call.level) call.tag call.fmt call.vfprintf).2 } := by
      simp only [handle, h]
    rw [List.foldl_cons, ih ((s.handle_handler call).1.trans h), hnext, List.foldl_cons]

theorem foldl_handle_null {s : Logger δ} (h : s.handler = .null) (calls : List LogCall) :
    calls.foldl handle s = s := by
  have hnext : ∀ call, s.handle call = s := fun call => by simp only [handle, h]
  induction calls with
  | nil => rfl
  | cons call calls ih => rw [List.foldl_cons, hnext, ih]

/-- `logger_new_null` lets every level through, to nothing. -/
example (calls : List LogCall) : run step calls newNull = .ok newNull :=
  (run_eq calls newNull).trans (congrArg Outcome.ok (foldl_handle_null rfl _))

/-- Every line is there, whole, where tags have no directives and there is memory. -/
theorem run_written {calls : List LogCall} {s : Logger δ} {stream : LogStream}
    (hstream : s.handler = .stream stream)
    (h : ∀ call ∈ calls, call.Written) :
    run step calls s = .ok { s with
      sink := s.sink ++ (calls.filter s.admits).flatMap (LogCall.line stream) } := by
  have hlines : (calls.filter s.admits).flatMap (fun call => call.vfprintf (call.handed stream)) =
      (calls.filter s.admits).flatMap (LogCall.line stream) := by
    refine List.flatMap_congr fun call hcall => ?_
    exact ((h call (List.mem_of_mem_filter hcall)).handed_eq stream).2
  have hquiet : (calls.filter s.admits).countP (LogCall.panics stream) = 0 := by
    rw [List.countP_eq_zero]
    intro call hcall
    simp [((h call (List.mem_of_mem_filter hcall)).handed_eq stream).1]
  rw [run_eq, foldl_handle_stream hstream, hlines, hquiet]
  rfl

end Logger

/-! ### The logger of the command line -/

namespace EarlyCall

/-- The log level that a call sets; texts that name none leave the one before. -/
def level (call : EarlyCall) : Option LogLevel :=
  if call.key = argLoglevel then call.arg.bind levelOfName else none

def output (call : EarlyCall) : Option LogOutput :=
  if call.key = argLogoutput then
    call.arg.map fun arg => if arg = ascii "-" then .stdout else .file arg
  else none

def isFile (call : EarlyCall) : Bool :=
  call.output.any fun output => output matches .file _

/-- The options with an argument get one from `argp_parse`. -/
def Given (call : EarlyCall) : Prop :=
  call.key ∈ [argLoglevel, argLogoutput, argLoad] → call.arg.isSome = true

/-- A log file that `fopen` does not open. -/
def fails (call : EarlyCall) : Bool := call.isFile && !call.opens

end EarlyCall

namespace RappArguments

/-- One option: an output that cannot be opened stops the parser, without an output;
an output that is a file takes the console away. -/
theorem step_early {call : EarlyCall} (hgiven : call.Given) (a : RappArguments) :
    ∃ b, step call a = (if call.fails then .failed b else .ok b) ∧
      b.logoutput = (if call.fails then none else call.output.or a.logoutput) ∧
      b.loglevel = call.level.getD a.loglevel ∧
      b.logoutputIsConsole = (a.logoutputIsConsole && !call.isFile) := by
  obtain ⟨⟨key, arg⟩, opens⟩ := call
  simp only [EarlyCall.Given, List.mem_cons, List.not_mem_nil, or_false] at hgiven
  simp only [step, parseEarlyOpt, EarlyCall.fails, EarlyCall.isFile, EarlyCall.output,
    EarlyCall.level]
  by_cases hlevel : key = argLoglevel
  · obtain ⟨text, rfl⟩ := Option.isSome_iff_exists.mp (hgiven (.inl hlevel))
    cases hname : levelOfName text with
    | none => exact ⟨a, by simp [hlevel, hname]⟩
    | some level => exact ⟨{ a with loglevel := level }, by simp [hlevel, hname]⟩
  by_cases houtput : key = argLogoutput
  · obtain ⟨text, rfl⟩ := Option.isSome_iff_exists.mp (hgiven (.inr (.inl houtput)))
    by_cases hdash : text = ascii "-"
    · exact ⟨{ a with logoutput := some .stdout }, by simp [houtput, hdash]⟩
    cases opens with
    | true =>
      exact ⟨{ a with logoutputIsConsole := false, logoutput := some (.file text) },
        by simp [houtput, hdash]⟩
    | false =>
      exact ⟨{ a with logoutputIsConsole := false, logoutput := none },
        by simp [houtput, hdash]⟩
  by_cases hcolor : key = argLognocolor
  · exact ⟨{ a with lognocolor := true }, by simp [hcolor]⟩
  by_cases hload : key = argLoad
  · obtain ⟨text, rfl⟩ := Option.isSome_iff_exists.mp (hgiven (.inr (.inr hload)))
    exact ⟨{ a with container := some text }, by simp [hload]⟩
  · simp only [if_neg hlevel, if_neg houtput, if_neg hcolor, if_neg hload]
    exact ⟨a, by simp⟩

/-- The options one after another: what counts is the last name of a level and the
last output. -/
theorem run_early {calls : List EarlyCall} (hgiven : ∀ call ∈ calls, call.Given)
    (a : RappArguments) :
    ∃ b, run step calls a = (if calls.any EarlyCall.fails then .failed b else .ok b) ∧
      (calls.any EarlyCall.fails = true → b.logoutput = none) ∧
      (calls.any EarlyCall.fails = false →
        b.logoutput = (calls.filterMap EarlyCall.output).getLast?.or a.logoutput ∧
        b.loglevel = (calls.filterMap EarlyCall.level).getLastD a.loglevel ∧
        b.logoutputIsConsole = (a.logoutputIsConsole && !calls.any EarlyCall.isFile)) := by
  induction calls generalizing a with
  | nil => exact ⟨a, by simp⟩
  | cons call calls ih =>
    obtain ⟨b, hstep, houtput, hlevel, hconsole⟩ := step_early (hgiven call List.mem_cons_self) a
    cases hfails : call.fails with
    | true =>
      rw [if_pos hfails] at hstep houtput
      exact ⟨b, by simp [hstep, hfails], fun _ => houtput, by simp [hfails]⟩
    | false =>
      rw [if_neg (by simp [hfails])] at hstep houtput
      obtain ⟨c, hrun, hnone, hrest⟩ := ih (fun k hk => hgiven k (List.mem_cons_of_mem _ hk)) b
      have hany : (call :: calls).any EarlyCall.fails = calls.any EarlyCall.fails := by
        simp [hfails]
      rw [hany]
      refine ⟨c, by rw [run_cons, hstep, Outcome.bind_ok, hrun], hnone, fun hno => ?_⟩
      obtain ⟨hc₁, hc₂, hc₃⟩ := hrest hno
      refine ⟨?_, ?_, ?_⟩
      · rw [hc₁, houtput]
        cases hcase : call.output <;> simp [hcase, List.getLast?_cons]
      · rw [hc₂, hlevel]
        cases hcase : call.level with
        | none => rw [List.filterMap_cons_none hcase, Option.getD_none]
        | some level =>
          rw [List.filterMap_cons_some hcase, Option.getD_some, List.getLastD_cons]
      · rw [hc₃, hconsole]
        simp [Bool.and_assoc]

/-- What `main` makes of the command line, in any order and number of options. -/
theorem startLogger_eq {calls : List EarlyCall} (hgiven : ∀ call ∈ calls, call.Given) :
    startLogger (parseEarlyCommandline calls) =
      if calls.any EarlyCall.fails then none
      else some ((calls.filterMap EarlyCall.output).getLastD .stderr,
        Logger.newFp (if calls.any EarlyCall.isFile then .file else .console)
          ((calls.filterMap EarlyCall.level).getLastD logInfo)) := by
  obtain ⟨b, hrun, hnone, hsome⟩ := run_early hgiven default
  rw [parseEarlyCommandline, hrun]
  split
  · rename_i hfails
    simp only [startLogger, hnone hfails, Option.map_none]
  · rename_i hopened
    obtain ⟨houtput, hlevel, hconsole⟩ := hsome (by simpa using hopened)
    have hlast : b.logoutput = some ((calls.filterMap EarlyCall.output).getLastD .stderr) := by
      rw [houtput, List.getLastD_eq_getLast?]
      cases (calls.filterMap EarlyCall.output).getLast? <;> rfl
    simp only [startLogger, hlast, hlevel, hconsole, Option.map_some]
    cases calls.any EarlyCall.isFile <;> rfl

end RappArguments

end Rapp
