import Rulebook.Files.Read
import Rulebook.Proofs.Unread

/-!
# The text of a file and its offsets

A file is parsed as the text that it is after its line ends have become line feeds. Offsets count
in that text: behind a carriage return and a line feed they fall short of the place in the file, by
one for each such pair. The name of the file is in its diagnostics and nowhere else.
-/

namespace Rulebook

variable {frames : Nat}

open Rulebook.Parser

/-! ### Names of sources -/

/-- A diagnostic under another name of its source. -/
def Diagnostic.renamed (name : String) (d : Diagnostic) : Diagnostic :=
  { d with sourceName := name }

theorem Diagnostic.renamed_ofToken (name other : String) (kind : ErrorKind) (message : String)
    (token : Option Token) (ruleName : Option String) :
    (ofToken kind other message token ruleName).renamed name =
      ofToken kind name message token ruleName := by
  cases token <;> rfl

structure Collector.Renames (name : String) (c d : Collector) : Prop where
  sourceName : d.sourceName = name
  maxErrors : d.maxErrors = c.maxErrors
  recovering : d.recovering = c.recovering
  errors : d.errors = c.errors.map (Diagnostic.renamed name)

namespace Collector.Renames

variable {name : String} {c d : Collector}

theorem isFull (h : Renames name c d) : d.isFull = c.isFull := by
  unfold Collector.isFull
  rw [h.maxErrors, h.errors, List.length_map]

theorem add (h : Renames name c d) (kind : ErrorKind) (message : String) (token : Option Token)
    (ruleName : Option String) :
    Renames name (c.add kind message token ruleName) (d.add kind message token ruleName) := by
  unfold Collector.add
  rw [h.isFull]
  split
  · exact ⟨h.sourceName, h.maxErrors, h.recovering, h.errors⟩
  · refine ⟨h.sourceName, h.maxErrors, h.recovering, ?_⟩
    show d.errors ++ [_] = List.map _ (c.errors ++ [_])
    rw [List.map_append, ← h.errors, h.sourceName, List.map_singleton, Diagnostic.renamed_ofToken]

theorem report (h : Renames name c d) (e : ParseError) (ruleName : Option String) :
    Renames name (c.report e ruleName) (d.report e ruleName) := by
  unfold Collector.report
  rw [h.recovering]
  split
  · exact ⟨h.sourceName, h.maxErrors, rfl, h.errors⟩
  · exact add (c := { c with recovering := true }) (d := { d with recovering := true })
      ⟨h.sourceName, h.maxErrors, rfl, h.errors⟩ _ _ _ _

end Collector.Renames

theorem Collector.congruence_renames (name : String) : Collector.Congruence (Renames name) where
  report h e ruleName := h.report e ruleName
  remark h message token ruleName := h.add _ message token ruleName
  tokenMatched h := ⟨h.sourceName, h.maxErrors, rfl, h.errors⟩

theorem parse_renamed (settings : Settings) (name other text : String) :
    (∃ r r', parse frames settings name text = .ok r ∧ parse frames settings other text = .ok r' ∧
      r'.package = r.package ∧ r'.errors = r.errors.map (Diagnostic.renamed other)) ∨
    ∃ a a', parse frames settings name text = .error a ∧
      parse frames settings other text = .error a' ∧ a'.failure = a.failure := by
  let s := State.ofText frames settings name text
  let t := State.ofText frames settings other text
  have hbeside : s.Beside (Collector.Renames other) t :=
    ⟨rfl, ⟨rfl, rfl, rfl, rfl⟩, rfl, rfl, rfl, rfl, rfl⟩
  have hsame := Composed.sameEnd (p := compilationUnit) inferInstance
    (Collector.congruence_renames other) hbeside
  unfold parse
  generalize compilationUnit (.ofText frames settings name text) = x at *
  generalize compilationUnit (.ofText frames settings other text) = y at *
  cases hsame with
  | ok h => exact .inl ⟨_, _, rfl, rfl, rfl, h.collector.errors⟩
  | error h => exact .inr ⟨_, _, rfl, rfl, rfl⟩

/-! ### Line ends -/

namespace Text

theorem withLineFeeds_eq_self_iff (cs : List Char) : withLineFeeds cs = cs ↔ '\r' ∉ cs := by
  constructor
  · intro h
    exact h ▸ carriageReturn_notMem_withLineFeeds cs
  · intro h
    fun_induction withLineFeeds cs with
    | case1 => rfl
    | case2 => simp at h
    | case3 c rest _ ih =>
      rw [List.mem_cons, not_or] at h
      rw [if_neg (Ne.symm h.1), ih h.2]

/-- The offset in a file of a place in its text: a carriage return and a line feed are one character
there. -/
def offsetInFile : List Char → Nat → Nat
  | _, 0 => 0
  | [], n => n
  | '\r' :: '\n' :: rest, n + 1 => offsetInFile rest n + 2
  | _ :: rest, n + 1 => offsetInFile rest n + 1

/-- A carriage return at an offset, with a line feed behind it. -/
def IsPairAt (cs : List Char) (n : Nat) : Prop := cs[n]? = some '\r' ∧ cs[n + 1]? = some '\n'

theorem le_offsetInFile (cs : List Char) (n : Nat) : n ≤ offsetInFile cs n := by
  fun_induction offsetInFile cs n with
  | case1 => exact Nat.le_refl 0
  | case2 => exact Nat.le_refl _
  | case3 => omega
  | case4 => omega

theorem offsetInFile_eq_self_iff (cs : List Char) (n : Nat) :
    offsetInFile cs n = n ↔ ∀ i < n, ¬ IsPairAt cs i := by
  fun_induction offsetInFile cs n with
  | case1 => simp
  | case2 => simp [IsPairAt]
  | case3 rest n =>
    have hlater := le_offsetInFile rest n
    refine iff_of_false (by omega) fun h => h 0 (by omega) ⟨rfl, rfl⟩
  | case4 c rest n hsingle ih =>
    have hhere : ¬ IsPairAt (c :: rest) 0 := by
      rintro ⟨hc, hrest⟩
      obtain rfl : c = '\r' := by simpa using hc
      cases rest with
      | nil => simp at hrest
      | cons d more =>
        obtain rfl : d = '\n' := by simpa using hrest
        exact hsingle more rfl rfl
    constructor
    · intro h i hi
      cases i with
      | zero => exact hhere
      | succ i => exact (ih.1 (by omega)) i (by omega)
    · intro h
      have := ih.2 fun i hi => h (i + 1) (by omega)
      omega

/-- A character that begins no pair is read for itself. -/
theorem withLineFeeds_cons_of_single {c : Char} {rest : List Char}
    (h : ∀ more, c = '\r' → rest = '\n' :: more → False) :
    withLineFeeds (c :: rest) = (if c = '\r' then '\n' else c) :: withLineFeeds rest := by
  rw [withLineFeeds]
  exact h

/-- What is behind a place in the text is what is behind it in the file. -/
theorem drop_withLineFeeds (cs : List Char) (n : Nat) :
    (withLineFeeds cs).drop n = withLineFeeds (cs.drop (offsetInFile cs n)) := by
  fun_induction offsetInFile cs n with
  | case1 => rfl
  | case2 => simp [withLineFeeds]
  | case3 rest n ih => simpa [withLineFeeds] using ih
  | case4 c rest n hsingle ih =>
    rw [withLineFeeds_cons_of_single hsingle, List.drop_succ_cons, ih, List.drop_succ_cons]

/-- What is before a place in the text is what is before it in the file. -/
theorem take_withLineFeeds (cs : List Char) (n : Nat) :
    (withLineFeeds cs).take n = withLineFeeds (cs.take (offsetInFile cs n)) := by
  fun_induction offsetInFile cs n with
  | case1 => rfl
  | case2 => simp [withLineFeeds]
  | case3 rest n ih => simpa [withLineFeeds] using ih
  | case4 c rest n hsingle ih =>
    -- a line feed that is left at the front of the rest is one of the rest itself
    have hkept : ∀ more, c = '\r' → rest.take (offsetInFile rest n) = '\n' :: more → False := by
      intro more hc hmore
      cases rest with
      | nil => simp at hmore
      | cons d others =>
        obtain ⟨m, hm⟩ : ∃ m, offsetInFile (d :: others) n = m + 1 := by
          cases hn : offsetInFile (d :: others) n with
          | zero => simp [hn] at hmore
          | succ m => exact ⟨m, rfl⟩
        rw [hm, List.take_succ_cons, List.cons.injEq] at hmore
        exact hsingle others hc (by rw [hmore.1])
    rw [withLineFeeds_cons_of_single hsingle, List.take_succ_cons, ih, List.take_succ_cons,
      withLineFeeds_cons_of_single hkept]

/-- The rest of a way, counted from a place on it. -/
theorem offsetInFile_add (cs : List Char) (m n : Nat) :
    offsetInFile cs (m + n) =
      offsetInFile cs m + offsetInFile (cs.drop (offsetInFile cs m)) n := by
  fun_induction offsetInFile cs m with
  | case1 => simp
  | case2 m => cases m <;> cases n <;> simp [offsetInFile]; omega
  | case3 rest m ih =>
    have hstep : offsetInFile ('\r' :: '\n' :: rest) (m + n + 1) =
        offsetInFile rest (m + n) + 2 := by rw [offsetInFile]
    rw [show m.succ + n = m + n + 1 by omega, hstep, ih, List.drop_succ_cons, List.drop_succ_cons]
    omega
  | case4 c rest m hsingle ih =>
    have hstep : offsetInFile (c :: rest) (m + n + 1) = offsetInFile rest (m + n) + 1 := by
      rw [offsetInFile]
      exact hsingle
    rw [show m.succ + n = m + n + 1 by omega, hstep, ih, List.drop_succ_cons]
    omega

/-- The characters between two places of the text are those between the places in the file, up to
their line ends. -/
theorem slice_withLineFeeds (cs : List Char) (start stop : Nat) :
    slice (.ofList (withLineFeeds cs)) start stop =
      .ofList (withLineFeeds
        (slice (.ofList cs) (offsetInFile cs start) (offsetInFile cs stop)).toList) := by
  have hlength : offsetInFile cs stop - offsetInFile cs start =
      offsetInFile (cs.drop (offsetInFile cs start)) (stop - start) := by
    rcases Nat.le_total start stop with h | h
    · have hsum := offsetInFile_add cs start (stop - start)
      rw [Nat.add_sub_cancel' h] at hsum
      omega
    · have hsum := offsetInFile_add cs stop (start - stop)
      rw [Nat.add_sub_cancel' h] at hsum
      rw [Nat.sub_eq_zero_of_le h, offsetInFile]
      omega
  apply String.toList_inj.1
  rw [toList_slice, String.toList_ofList, String.toList_ofList, toList_slice, String.toList_ofList,
    List.drop_take, List.drop_take, drop_withLineFeeds, take_withLineFeeds, hlength]

/-! ### Bytes below 128 -/

theorem decodeWith_of_singles {read : UInt8 → Bytes → CharRead} {char : UInt8 → Char}
    {bytes : Bytes} (h : ∀ b ∈ bytes, ∀ rest, read b rest = .ok (char b, 0)) (codec : String)
    (offset : Nat) : decodeWith codec read offset bytes = .ok (bytes.map char) := by
  induction bytes generalizing offset with
  | nil => rw [decodeWith, List.map_nil]
  | cons b rest ih =>
    rw [decodeWith, h b List.mem_cons_self rest]
    simp only [List.drop_zero]
    rw [ih (fun c hc => h c (List.mem_cons_of_mem _ hc)), List.map_cons, Except.map]

theorem utf8Char_of_lt {b : UInt8} (h : b.toNat < 0x80) (rest : Bytes) :
    utf8Char b rest = .ok (Char.ofNat b.toNat, 0) := by
  simp [utf8Char, continuations?, h, continuing]

theorem decode_utf8_of_lt {bytes : Bytes} (h : ∀ b ∈ bytes, b.toNat < 0x80) :
    Encoding.utf8.decode bytes = .ok (bytes.map fun b => Char.ofNat b.toNat) :=
  decodeWith_of_singles (fun b hb rest => utf8Char_of_lt (h b hb) rest) "utf-8" 0

theorem codecs_utf8 : Encoding.codecs "utf-8" = .ok Encoding.utf8.decode := by
  have hname : Encoding.ofName? "utf-8" = some .utf8 := by decide +kernel
  rw [Encoding.codecs, hname]

end Text

/-! ### Files -/

variable {m : Machine} {fs : FileSystem} {path : Path} {bytes : Text.Bytes}

theorem readText_of_read {encoding : String} (hencoding : hasNull encoding = false)
    (hpath : path.names.any hasNull = false) (hbytes : fs.read path = .ok bytes) :
    fs.readText m encoding path = m.text encoding bytes := by
  simp [FileSystem.readText, hencoding, hpath, hbytes]

theorem Machine.text_of_decode {encoding : String} {decode : Text.Codec} {cs : List Char}
    (hcodec : m.codecs encoding = .ok decode) (hcs : decode bytes = .ok cs) :
    m.text encoding bytes = .ok (.ofList (Text.withLineFeeds cs)) := by
  rw [Machine.text, hcodec]
  simp only [hcs]

theorem Machine.text_ne_access (encoding : String) (fault : AccessFault) :
    m.text encoding bytes ≠ .error (.access path fault) := by
  unfold Machine.text
  split
  · simp
  · split
    next f _ => cases f <;> simp [ReadFailure.ofDecoding]
    · simp

def ParseResult.ofFile (r : ParseResult) : ParseResult :=
  if r.hasErrors then { r with events := r.events ++ [.fileErrors r.sourceName r.errors.length] }
  else r

@[simp] theorem ParseResult.package_ofFile (r : ParseResult) : r.ofFile.package = r.package := by
  unfold ofFile
  split <;> rfl

@[simp] theorem ParseResult.errors_ofFile (r : ParseResult) : r.ofFile.errors = r.errors := by
  unfold ofFile
  split <;> rfl

theorem parseFile_eq_ok_iff {settings : Settings} {r : ParseResult} :
    parseFile m fs settings path = .ok r ↔
      ∃ text p, fs.readText m settings.encoding path = .ok text ∧
        parse m.frames settings path.toString text = .ok p ∧ p.ofFile = r := by
  unfold parseFile
  cases hread : fs.readText m settings.encoding path with
  | error f => cases f <;> simp
  | ok text =>
    cases hparse : parse m.frames settings path.toString text with
    | error a => simp [hparse]
    | ok p => by_cases hp : p.hasErrors <;> simp [hparse, hp, ParseResult.ofFile]

theorem parseFile_of_abandoned {settings : Settings} {text : String} {a : Abandoned}
    (hread : fs.readText m settings.encoding path = .ok text)
    (ha : parse m.frames settings path.toString text = .error a) :
    parseFile m fs settings path = .error (.abandoned a) := by
  simp [parseFile, hread, ha]

/-- A file that can be decoded, in whatever encoding, gives the package and the diagnostics of its
characters with line feeds for line ends, under its own name. What an offset of that text stands for
in the file is the same piece, but for its line ends; the offset is one of the file itself just if
no carriage return with a line feed is before it, and text and file are the same just if the file
has no carriage return. -/
theorem parseFile_reads_line_feeds {settings : Settings} {decode : Text.Codec} {cs : List Char}
    (hencoding : hasNull settings.encoding = false) (hpath : path.names.any hasNull = false)
    (hbytes : fs.read path = .ok bytes) (hcodec : m.codecs settings.encoding = .ok decode)
    (hcs : decode bytes = .ok cs) (name : String) :
    ((∃ r r', parse m.frames settings name (.ofList (Text.withLineFeeds cs)) = .ok r ∧
        parseFile m fs settings path = .ok r' ∧ r'.package = r.package ∧
        r'.errors = r.errors.map (Diagnostic.renamed path.toString)) ∨
      ∃ a a', parse m.frames settings name (.ofList (Text.withLineFeeds cs)) = .error a ∧
        parseFile m fs settings path = .error (.abandoned a') ∧ a'.failure = a.failure) ∧
    (∀ start stop, Text.slice (.ofList (Text.withLineFeeds cs)) start stop =
      .ofList (Text.withLineFeeds (Text.slice (.ofList cs) (Text.offsetInFile cs start)
        (Text.offsetInFile cs stop)).toList)) ∧
    (∀ n, Text.offsetInFile cs n = n ↔ ∀ i < n, ¬ Text.IsPairAt cs i) ∧
    (Text.withLineFeeds cs = cs ↔ '\r' ∉ cs) := by
  refine ⟨?_, Text.slice_withLineFeeds cs, Text.offsetInFile_eq_self_iff cs,
    Text.withLineFeeds_eq_self_iff cs⟩
  have hread := (readText_of_read hencoding hpath hbytes).trans (Machine.text_of_decode hcodec hcs)
  rcases parse_renamed settings name path.toString (.ofList (Text.withLineFeeds cs)) with
    ⟨r, r', hr, hr', hpackage, herrors⟩ | ⟨a, a', ha, ha', hfailure⟩
  · have hfile := parseFile_eq_ok_iff.2 ⟨_, r', hread, hr', rfl⟩
    exact .inl ⟨r, r'.ofFile, hr, hfile, by rw [r'.package_ofFile, hpackage],
      by rw [r'.errors_ofFile, herrors]⟩
  · exact .inr ⟨a, a', ha, parseFile_of_abandoned hread ha', hfailure⟩

/-- A rule in two lines, the first of which ends with a carriage return and a line feed. -/
def twoLines : List Char := "rule A\r\nwhen then end".toList

/-- A file system with that rule as `a.drl`. -/
def twoLinesFile : FileSystem :=
  { root := .directory [("a.drl", .file (twoLines.map fun c => .ofNat c.toNat))] }

theorem decode_twoLines :
    Text.Encoding.utf8.decode (twoLines.map fun c => .ofNat c.toNat) = .ok twoLines := by
  rw [Text.decode_utf8_of_lt (by decide +kernel),
    show (List.map _ _ : List Char) = twoLines by decide +kernel]

theorem parseFile_reads_line_feeds_twoLines :
    hasNull ({} : Settings).encoding = false ∧ ["a.drl"].any hasNull = false ∧
      Machine.bare.codecs ({} : Settings).encoding = .ok Text.Encoding.utf8.decode ∧
      (∃ r r', parse 900 {} "orders" "rule A\nwhen then end" = .ok r ∧
        parseFile .bare twoLinesFile {} ⟨0, ["a.drl"]⟩ = .ok r' ∧ r'.package = r.package ∧
        r'.errors = r.errors.map (Diagnostic.renamed "a.drl")) ∧
      Text.offsetInFile twoLines 7 = 8 := by
  have hencoding : hasNull ({} : Settings).encoding = false := by decide
  have hpath : (⟨0, ["a.drl"]⟩ : Path).names.any hasNull = false := by decide
  have hbytes : twoLinesFile.read ⟨0, ["a.drl"]⟩ = .ok (twoLines.map fun c => .ofNat c.toNat) := rfl
  have hcodec : Machine.bare.codecs ({} : Settings).encoding = .ok Text.Encoding.utf8.decode :=
    Text.codecs_utf8
  have h := parseFile_reads_line_feeds hencoding hpath hbytes hcodec decode_twoLines "orders"
  refine ⟨hencoding, hpath, hcodec, ?_, by decide⟩
  rcases h.1 with hread | ⟨a, -, ha, -⟩
  · exact hread
  · have ha : parse 900 {} "orders" _ = .error a := ha
    have hok : (parse 900 {} "orders" (.ofList (Text.withLineFeeds twoLines))).isOk = true := by
      decide +kernel
    rw [ha] at hok
    cases hok

/-- The rule ends one place earlier in the tree of the file than in that of its characters. -/
theorem parseFile_shifts_offsets :
    (∃ bytes, twoLinesFile.read ⟨0, ["a.drl"]⟩ = .ok bytes ∧
      Text.Encoding.utf8.decode bytes = .ok twoLines) ∧
    (parse 900 {} "a.drl" (.ofList twoLines)).toOption.map (·.package.location.stop) =
      some (some 21) ∧
    (parseFile .bare twoLinesFile {} ⟨0, ["a.drl"]⟩).toOption.map (·.package.location.stop) =
      some (some 20) := by
  have hread : twoLinesFile.readText .bare ({} : Settings).encoding ⟨0, ["a.drl"]⟩ =
      .ok (.ofList (Text.withLineFeeds twoLines)) :=
    (readText_of_read (by decide) (by decide) rfl).trans
      (Machine.text_of_decode Text.codecs_utf8 decode_twoLines)
  refine ⟨⟨_, rfl, decode_twoLines⟩, by decide +kernel, ?_⟩
  rw [parseFile, hread]
  decide +kernel

end Rulebook
