import Mathlib.Data.List.Sort
import Rapp.YamlFrame

/-!
# Configuration files

`config_parse` and `config_scan_directory` of `config/yaml.c`. What the file
system and the scanner give for a path is a parameter. A directory is read in
the order of `alphasort`, which without `setlocale` is that of `strcmp`.
-/
namespace Rapp

open CallOutcome (Outcome run)
open ByteBlock

/-- `strcoll` in the C locale, as the order of `alphasort`. -/
def alphasort : Bytes → Bytes → Bool
  | [], _ => true
  | _ :: _, [] => false
  | a :: as, b :: bs => a.toNat < b.toNat || (a.toNat == b.toNat && alphasort as bs)

/-- `entries` are the names `readdir` finds in a directory, in any order;
`tokens` are those of the file behind a path. None is the error. -/
structure Files where
  entries : Bytes → Option (List Bytes)
  tokens : Bytes → Option (List YamlToken)

abbrev pathMax : Nat := 4096

inductive StartupFault where
  /-- The parser does not come to an end. -/
  | neverReturns
  /-- `snprintf` is given a length behind the end of `buf`. -/
  | pathOverflow (length : Nat)
  /-- `num` was not set. -/
  | noCount
  deriving DecidableEq

/-- Beside the configuration, the paths `config_parse` was called with. -/
structure Startup where
  conf : RappConfig
  opened : List Bytes
  deriving DecidableEq

abbrev StartupResult := Outcome StartupFault Startup

def endswith (str suffix : Bytes) : Int :=
  if str.length < suffix.length then -1
  else if str.drop (str.length - suffix.length) = suffix then 0 else -1

namespace Files

variable (files : Files)

/-- `config_parse` as far as the configuration goes. -/
def parse (filename : Bytes) (conf : RappConfig) : ConfigResult :=
  match files.tokens filename with
  | none => .failed conf
  | some tokens => configParseMain conf tokens

def configParse (filename : Bytes) (s : Startup) : StartupResult :=
  match files.parse filename s.conf with
  | .ok conf => .ok ⟨conf, s.opened ++ [filename]⟩
  | .failed conf => .failed ⟨conf, s.opened ++ [filename]⟩
  | .undefined _ => .undefined .neverReturns

/-- `scandir` without a filter. -/
def scandir (directory : Bytes) : Option (List Bytes) :=
  (files.entries directory).map (List.insertionSort fun a b => alphasort a b)

def path (directory name : Bytes) : Bytes := directory ++ ascii "/" ++ name

/-- One round of the loop over the names. -/
def scanName (directory ext name : Bytes) (s : Startup) : StartupResult :=
  if endswith name ext = 0 then
    let len := directory.length + name.length + 2
    if pathMax < len then .undefined (.pathOverflow len)
    else files.configParse (path directory name) s
  else .ok s

def configScanDirectory (directory ext : Bytes) (s : Startup) : StartupResult :=
  match files.scandir directory with
  | none => .failed s
  | some names => run (files.scanName directory ext) names s

/-- The paths a directory stands for. -/
def matching (directory ext : Bytes) : List Bytes :=
  (((files.entries directory).getD []).filter fun name => decide (ext <:+ name)).map
    (path directory)

/-- `config_parse` of a path that was put together in `buf`. -/
def parsePath (path : Bytes) (s : Startup) : StartupResult :=
  if pathMax ≤ path.length then .undefined (.pathOverflow (path.length + 1))
  else files.configParse path s

end Files

theorem endswith_iff (str suffix : Bytes) : endswith str suffix = 0 ↔ suffix <:+ str := by
  rw [endswith]
  constructor
  · intro h
    split at h
    · cases h
    · split at h
      · rename_i hdrop
        rw [← hdrop]
        exact List.drop_suffix _ _
      · cases h
  · rintro ⟨front, rfl⟩
    simp

/-! ### The order of the names -/

theorem alphasort_total (as bs : Bytes) : alphasort as bs ∨ alphasort bs as := by
  induction as generalizing bs with
  | nil => exact .inl rfl
  | cons a as ih =>
    cases bs with
    | nil => exact .inr rfl
    | cons b bs =>
      have hrest := ih bs
      simp only [alphasort, Bool.or_eq_true, Bool.and_eq_true, decide_eq_true_eq, beq_iff_eq]
      rcases Nat.lt_trichotomy a.toNat b.toNat with hlt | heq | hgt
      · exact .inl (.inl hlt)
      · exact hrest.imp (fun h => .inr ⟨heq, h⟩) fun h => .inr ⟨heq.symm, h⟩
      · exact .inr (.inl hgt)

theorem alphasort_trans {as bs cs : Bytes} (h : alphasort as bs) (h' : alphasort bs cs) :
    alphasort as cs := by
  induction as generalizing bs cs with
  | nil => rfl
  | cons a as ih =>
    cases bs with
    | nil => cases h
    | cons b bs =>
      cases cs with
      | nil => cases h'
      | cons c cs =>
        simp only [alphasort, Bool.or_eq_true, Bool.and_eq_true, decide_eq_true_eq,
          beq_iff_eq] at h h' ⊢
        rcases h with hab | ⟨hab, hrest⟩
        · exact .inl (by omega)
        · rcases h' with hbc | ⟨hbc, hrest'⟩
          · exact .inl (by omega)
          · exact .inr ⟨hab.trans hbc, ih hrest hrest'⟩

theorem alphasort_antisymm {as bs : Bytes} (h : alphasort as bs) (h' : alphasort bs as) :
    as = bs := by
  induction as generalizing bs with
  | nil =>
    cases bs with
    | nil => rfl
    | cons b bs => cases h'
  | cons a as ih =>
    cases bs with
    | nil => cases h
    | cons b bs =>
      simp only [alphasort, Bool.or_eq_true, Bool.and_eq_true, decide_eq_true_eq,
        beq_iff_eq] at h h'
      rcases h with hab | ⟨hab, hrest⟩
      · omega
      · rcases h' with hba | ⟨-, hrest'⟩
        · omega
        · rw [UInt8.toNat.inj hab, ih hrest hrest']

instance : Std.Total fun as bs : Bytes => (alphasort as bs : Prop) := ⟨alphasort_total⟩

instance : IsTrans Bytes fun as bs => (alphasort as bs : Prop) :=
  ⟨fun _ _ _ => alphasort_trans⟩

theorem pairwise_alphasort (names : List Bytes) :
    (names.insertionSort fun a b => alphasort a b).Pairwise fun a b => alphasort a b :=
  List.pairwise_insertionSort _ names

theorem alphasort_append (front as bs : Bytes) :
    alphasort (front ++ as) (front ++ bs) = alphasort as bs := by
  induction front with
  | nil => rfl
  | cons a front ih => simp [alphasort, ih]

/-! ### Directories -/

namespace Files

theorem scanName_eq (files : Files) (directory ext name : Bytes) :
    files.scanName directory ext name = fun s =>
      if decide (ext <:+ name) then files.parsePath (path directory name) s else .ok s := by
  funext s
  have hlength : (path directory name).length + 1 = directory.length + name.length + 2 := by
    simp [path, ascii]
    omega
  rw [scanName, parsePath, hlength]
  simp only [endswith_iff, decide_eq_true_eq]
  by_cases hext : ext <:+ name
  · rw [if_pos hext, if_pos hext]
    by_cases hover : pathMax < directory.length + name.length + 2
    · rw [if_pos hover, if_pos (by omega)]
    · rw [if_neg hover, if_neg (by omega)]
  · rw [if_neg hext, if_neg hext]

/-- A directory is read as its paths with the suffix in ascending order, up to
the first one that fails, whatever order `readdir` has. -/
theorem scan_ascending (files : Files) {directory : Bytes}
    (h : (files.entries directory).isSome) (ext : Bytes) {paths : List Bytes}
    (hpaths : paths.Perm (files.matching directory ext))
    (hsorted : paths.Pairwise fun a b => alphasort a b) (s : Startup) :
    files.configScanDirectory directory ext s = run files.parsePath paths s := by
  obtain ⟨names, hnames⟩ := Option.isSome_iff_exists.mp h
  let sorted := names.insertionSort fun a b => alphasort a b
  have hascending : ((sorted.filter fun name => decide (ext <:+ name)).map
      (path directory)).Pairwise fun a b => alphasort a b := by
    rw [List.pairwise_map]
    refine ((pairwise_alphasort names).filter _).imp fun {a b} hab => ?_
    rwa [path, path, alphasort_append]
  have hsame : (sorted.filter fun name => decide (ext <:+ name)).map (path directory) = paths := by
    refine List.Perm.eq_of_pairwise (fun _ _ _ _ => alphasort_antisymm) hascending hsorted ?_
    refine List.Perm.trans ?_ hpaths.symm
    rw [matching, hnames]
    exact ((List.perm_insertionSort _ names).filter _).map _
  rw [configScanDirectory, scandir, hnames]
  change run (files.scanName directory ext) sorted s = _
  rw [← hsame, CallOutcome.run_map_input, CallOutcome.run_filter]
  congr 1
  funext name
  exact files.scanName_eq directory ext name

/-- Two names of a directory match, and the second one is the first in the alphabet. -/
theorem scan_ascending_two :
    let files : Files := {
      entries := fun _ => some [ascii "b.yaml", ascii "a.yaml", ascii "a.yml"]
      tokens := fun _ => none }
    files.configScanDirectory (ascii "conf.d") (ascii ".yaml") ⟨.new, []⟩ =
      run files.parsePath [ascii "conf.d/a.yaml", ascii "conf.d/b.yaml"] ⟨.new, []⟩ := by
  intro files
  refine files.scan_ascending rfl (ascii ".yaml") ?_ ?_ ⟨.new, []⟩
  · exact List.Perm.swap _ _ []
  · decide

/-! ### What files do -/

variable {R : ConfigOption → ConfigOption → Prop}

theorem compared_parse (h : Rereads R) (files : Files) (filename : Bytes) (conf : RappConfig) :
    (files.parse filename conf).Holds (Compared R conf) := by
  rw [parse]
  split
  · exact Compared.refl h conf
  · exact compared_main h conf _

theorem compared_run (h : Rereads R) (files : Files) (paths : List Bytes) (conf : RappConfig) :
    (run files.parse paths conf).Holds (Compared R conf) :=
  CallOutcome.run_holds files.parse (fun path before hbefore =>
    (compared_parse h files path before).mono fun _ hnext => hbefore.trans h hnext) paths
    (Compared.refl h conf)

/-- Whatever is in the files and however reading them ends, options are neither
declared nor lost, a locked one keeps everything, and of another one only the
values change, which keep to its type and its range. -/
theorem parse_refills (files : Files) (paths : List Bytes) (conf : RappConfig) :
    (run files.parse paths conf).Holds (Compared Refilled conf) :=
  compared_run rereads_refilled files paths conf

theorem compared_configParse (h : Rereads R) (files : Files) (path : Bytes) (s : Startup) :
    (files.configParse path s).Holds fun t => Compared R s.conf t.conf := by
  have hparse := compared_parse h files path s.conf
  rw [configParse]
  revert hparse
  cases files.parse path s.conf with
  | ok conf => exact id
  | failed conf => exact id
  | undefined why => exact id

theorem compared_scan (h : Rereads R) (files : Files) (directory ext : Bytes) (s : Startup) :
    (files.configScanDirectory directory ext s).Holds fun t => Compared R s.conf t.conf := by
  rw [configScanDirectory]
  split
  · exact Compared.refl h s.conf
  · refine CallOutcome.run_holds _ (P := fun t : Startup => Compared R s.conf t.conf)
      (fun name before hbefore => ?_) _ (Compared.refl h s.conf)
    rw [scanName_eq]
    dsimp only
    rw [parsePath]
    split
    · split
      · trivial
      · exact (compared_configParse h files _ before).mono fun _ hnext => hbefore.trans h hnext
    · exact hbefore

end Files

end Rapp
