import Fibers.Config.Constants
import Fibers.Proofs.Text.Lines

/-!
The generated configuration read as a user's file. A value is any text without a line feed and
without white space at its ends, so it may hold colons, equals signs, semicolons and comments. The
name in front of it and the semicolon behind it are what reading looks for: the first colon and the
first equals sign of a declaration stand before the value, and its last semicolon stands behind it.
-/

namespace Fibers.Config

open Fibers.Text

/-- What the values of a configuration are like: each parameter has one, nothing else does, and a
value fits on a line of its own with no white space at its ends. -/
structure Values.Full (vs : Values) : Prop where
  known : ∀ name, (vs.lookup name).isSome = true ↔ ∃ p ∈ parameters, p.name = name
  unbroken : ∀ name value, vs.lookup name = some value → '\n' ∉ value
  trimmed : ∀ name value, vs.lookup name = some value → trim value = value

theorem before?_append {c : Char} {left : List Char} (h : c ∉ left) (right : List Char) :
    before? c (left ++ c :: right) = some left := by
  have other : ∀ x ∈ left, (x != c) = true := by
    intro x hx
    rw [bne_iff_ne]
    rintro rfl
    exact h hx
  rw [before?, if_pos (List.mem_append_right _ List.mem_cons_self),
    List.takeWhile_append_of_pos other, List.takeWhile_cons_of_neg (by simp), List.append_nil]

theorem lastIndexOr_append {c : Char} (left : List Char) {right : List Char} (h : c ∉ right) :
    lastIndexOr c (left ++ c :: right) = left.length := by
  have fresh : c ∉ right.reverse := by simpa using h
  have found := before?_append fresh left.reverse
  have behind : (left ++ c :: right).reverse = right.reverse ++ c :: left.reverse := by simp
  rw [← behind] at found
  simp only [lastIndexOr, found, List.length_append, List.length_cons, List.length_reverse]
  omega

/-- A name, a type and a value as they are declared. -/
def body (name type value : List Char) : List Char :=
  name ++ [':', ' '] ++ type ++ [' ', '=', ' '] ++ value ++ [';']

/-- Whatever the value holds, the name and the value are found again. -/
theorem readBody_body {name type : List Char} (colon : ':' ∉ name) (equals : '=' ∉ name)
    (equals' : '=' ∉ type) (value : List Char) :
    readBody (body name type value) = .constant (trim name) (trim value) := by
  let left := name ++ [':', ' '] ++ type ++ [' ']
  have named : before? ':' (body name type value) = some name := by
    have split := before?_append colon ([' '] ++ type ++ [' ', '=', ' '] ++ value ++ [';'])
    simpa [body] using split
  have valued : before? '=' (body name type value) = some left := by
    have none : '=' ∉ left := by simp [left, equals, equals']
    have split := before?_append none ([' '] ++ value ++ [';'])
    simpa [body, left] using split
  have front : body name type value = left ++ ('=' :: ' ' :: value) ++ [';'] := by
    simp [body, left]
  have last : lastIndexOr ';' (body name type value) = left.length + (value.length + 2) := by
    rw [front, lastIndexOr_append _ List.not_mem_nil]
    simp
  have found : ((body name type value).drop (left.length + 1)).take (value.length + 1) =
      ' ' :: value := by
    have skipped : body name type value = (left ++ ['=']) ++ ((' ' :: value) ++ [';']) := by
      simp [body, left]
    have length : left.length + 1 = (left ++ ['=']).length := by simp
    rw [skipped, length, List.drop_left]
    exact List.take_left' rfl
  have size : left.length + (value.length + 2) - (left.length + 1) = value.length + 1 := by omega
  have ahead : ¬ left.length + (value.length + 2) < left.length + 1 := by omega
  simp only [readBody, named, valued, last, if_neg ahead, size, found]
  rw [trim_blank_cons (by decide)]

/-- What reading relies on in a name and a type. -/
structure Parameter.Plain (p : Parameter) : Prop where
  colon : ':' ∉ p.name.toList
  equals : '=' ∉ p.name.toList
  equals' : '=' ∉ p.type.toList
  feed : '\n' ∉ p.name.toList
  feed' : '\n' ∉ p.type.toList
  start : ∃ c, p.name.toList.head? = some c ∧ isBlank c = false
  whole : trim p.name.toList = p.name.toList

theorem plain_of_mem {p : Parameter} (h : p ∈ parameters) : p.Plain := by
  have all : ∀ p ∈ parameters,
      ':' ∉ p.name.toList ∧ '=' ∉ p.name.toList ∧ '=' ∉ p.type.toList ∧ '\n' ∉ p.name.toList ∧
        '\n' ∉ p.type.toList ∧ (p.name.toList.head?.any fun c => !isBlank c) = true ∧
        trim p.name.toList = p.name.toList := by
    decide +kernel
  obtain ⟨colon, equals, equals', feed, feed', start, whole⟩ := all p h
  refine ⟨colon, equals, equals', feed, feed', ?_, whole⟩
  cases first : p.name.toList.head? with
  | none => simp [first] at start
  | some c => exact ⟨c, rfl, by simpa [first] using start⟩

/-- Each parameter is found by its name. -/
theorem find?_of_mem {p : Parameter} (h : p ∈ parameters) :
    parameters.find? (·.name.toList == p.name.toList) = some p := by
  have all : ∀ p ∈ parameters,
      parameters.find? (·.name.toList == p.name.toList) = some p := by
    decide +kernel
  exact all p h

theorem declare_eq (vs : Values) (p : Parameter) :
    declare vs p = constWords ++ body p.name.toList p.type.toList (vs.get p) := by
  simp [declare, body]

theorem startsWith_append (word rest : List Char) : startsWith word (word ++ rest) = true := by
  rw [startsWith, List.isPrefixOf_iff_prefix]
  exact List.prefix_append ..

theorem startsWith_declare (vs : Values) (p : Parameter) :
    startsWith constWords (declare vs p) = true := by
  rw [declare_eq]
  exact startsWith_append ..

theorem getLast?_body (name type value : List Char) :
    (body name type value).getLast? = some ';' := by
  rw [body, List.getLast?_concat]

/-- A declaration is read as the name and the value that it declares. -/
theorem readConst_declare (vs : Values) {p : Parameter} (h : p.Plain)
    (trimmed : trim (vs.get p) = vs.get p) :
    readConst (trim (declare vs p)) = .constant p.name.toList (vs.get p) := by
  have last : ∀ c, (declare vs p).getLast? = some c → isBlank c = false := by
    intro c hc
    rw [declare_eq, List.getLast?_append, getLast?_body] at hc
    obtain rfl := Option.some.inj hc
    decide
  have first : ∀ c, (declare vs p).head? = some c → isBlank c = false := by
    intro c hc
    rw [declare_eq, List.head?_append] at hc
    obtain rfl := Option.some.inj hc
    decide
  have rest : (declare vs p).drop constWords.length =
      body p.name.toList p.type.toList (vs.get p) := by
    rw [declare_eq, List.drop_left]
  have inner : trim (body p.name.toList p.type.toList (vs.get p)) =
      body p.name.toList p.type.toList (vs.get p) := by
    apply trim_eq_self
    · intro c hc
      obtain ⟨d, hd, blank⟩ := h.start
      simp only [body, List.append_assoc, List.head?_append, hd, Option.some_or] at hc
      obtain rfl := Option.some.inj hc
      exact blank
    · intro c hc
      rw [getLast?_body] at hc
      obtain rfl := Option.some.inj hc
      decide
  rw [trim_eq_self first last, readConst, if_pos (startsWith_declare vs p), rest, inner,
    readBody_body h.colon h.equals h.equals', h.whole, trimmed]

theorem lookup_filter_ne (vs : Values) {name other : String} (h : ¬ other = name) :
    List.lookup other (vs.filter (·.1 != name)) = vs.lookup other := by
  induction vs with
  | nil => rfl
  | cons e vs ih =>
    rw [List.filter_cons, List.lookup_cons]
    by_cases own : other = e.1
    · have kept : (e.1 != name) = true := by simpa [← own] using h
      rw [if_pos kept, List.lookup_cons, own]
      simp
    · have skipped : (other == e.1) = false := by simpa using own
      rw [skipped]
      split
      · rw [List.lookup_cons, skipped]
        exact ih
      · exact ih

theorem lookup_put (vs : Values) (name : String) (value : List Char) (other : String) :
    (vs.put name value).lookup other = if other = name then some value else vs.lookup other := by
  rw [Values.put, List.lookup_cons]
  by_cases same : other = name
  · simp [same]
  · have distinct : (other == name) = false := by simpa using same
    rw [distinct, if_neg same]
    exact lookup_filter_ne vs same

theorem get_of_lookup {vs : Values} {p : Parameter} {value : List Char}
    (h : vs.lookup p.name = some value) : vs.get p = value := by
  rw [Values.get, h]
  rfl

theorem Values.Full.lookup {vs : Values} (h : vs.Full) {p : Parameter} (mem : p ∈ parameters) :
    vs.lookup p.name = some (vs.get p) := by
  obtain ⟨value, found⟩ := Option.isSome_iff_exists.mp ((h.known p.name).mpr ⟨p, mem, rfl⟩)
  rw [get_of_lookup found, found]

/-- A value of a parameter may be replaced by another text without line feeds and white space at
its ends. -/
theorem Values.Full.put {vs : Values} (h : vs.Full) {p : Parameter} (mem : p ∈ parameters)
    {value : List Char} (unbroken : '\n' ∉ value) (trimmed : trim value = value) :
    (vs.put p.name value).Full := by
  constructor
  · intro name
    rw [lookup_put]
    split
    · next same => exact ⟨fun _ => ⟨p, mem, same.symm⟩, fun _ => rfl⟩
    · exact h.known name
  · intro name v found
    rw [lookup_put] at found
    split at found
    · exact Option.some.inj found ▸ unbroken
    · exact h.unbroken name v found
  · intro name v found
    rw [lookup_put] at found
    split at found
    · exact Option.some.inj found ▸ trimmed
    · exact h.trimmed name v found

theorem lookup_defaults (name : String) :
    Values.defaults.lookup name =
      (parameters.find? (·.name == name)).map (·.value.toList) := by
  rw [Values.defaults]
  induction parameters with
  | nil => rfl
  | cons p ps ih =>
    rw [List.map_cons, List.lookup_cons, List.find?_cons, BEq.comm (a := name)]
    cases p.name == name with
    | true => rfl
    | false => exact ih

theorem full_defaults : Values.defaults.Full := by
  have plain : ∀ p ∈ parameters, '\n' ∉ p.value.toList ∧ trim p.value.toList = p.value.toList := by
    decide +kernel
  have among : ∀ name value, Values.defaults.lookup name = some value →
      ∃ p ∈ parameters, p.value.toList = value := by
    intro name value found
    rw [lookup_defaults] at found
    obtain ⟨p, hp, rfl⟩ := Option.map_eq_some_iff.mp found
    exact ⟨p, List.mem_of_find?_eq_some hp, rfl⟩
  constructor
  · intro name
    rw [lookup_defaults, Option.isSome_map, List.find?_isSome]
    simp
  · intro name value found
    obtain ⟨p, mem, rfl⟩ := among name value found
    exact (plain p mem).1
  · intro name value found
    obtain ⟨p, mem, rfl⟩ := among name value found
    exact (plain p mem).2

/-- Lines that declare parameters, one after the other. -/
theorem mergeLines_declare (vs : Values) (trimmed : ∀ p ∈ parameters, trim (vs.get p) = vs.get p)
    (ps : List Parameter) (sub : ps ⊆ parameters) (m : Merged) :
    mergeLines m (ps.map (declare vs)) = some { m with
      values := ps.foldl (fun values p => values.put p.name (vs.get p)) m.values } := by
  induction ps generalizing m with
  | nil => rfl
  | cons p ps ih =>
    have mem : p ∈ parameters := sub List.mem_cons_self
    have read := readConst_declare vs (plain_of_mem mem) (trimmed p mem)
    have merged : mergeLine m (declare vs p) =
        some { m with values := m.values.put p.name (vs.get p) } := by
      simp only [mergeLine, read, find?_of_mem mem]
    rw [List.map_cons, mergeLines, merged]
    exact ih (fun q hq => sub (List.mem_cons_of_mem p hq)) _

/-- Lines without a constant change nothing. -/
theorem mergeLines_nothing (ls rest : List (List Char))
    (h : ∀ line ∈ ls, readConst (trim line) = .nothing) (m : Merged) :
    mergeLines m (ls ++ rest) = mergeLines m rest := by
  induction ls with
  | nil => rfl
  | cons line ls ih =>
    have skipped : mergeLine m line = some m := by
      simp only [mergeLine, h line List.mem_cons_self]
    rw [List.cons_append, mergeLines, skipped]
    exact ih fun l hl => h l (List.mem_cons_of_mem line hl)

/-- The values after those of some parameters were replaced by the ones of a full map. -/
theorem lookup_foldl_put {vs : Values} (full : vs.Full) (ps : List Parameter)
    (sub : ps ⊆ parameters) (values : Values) (name : String) :
    (ps.foldl (fun values p => values.put p.name (vs.get p)) values).lookup name =
      if ∃ p ∈ ps, p.name = name then vs.lookup name else values.lookup name := by
  induction ps generalizing values with
  | nil => simp
  | cons p ps ih =>
    have own := full.lookup (sub List.mem_cons_self)
    rw [List.foldl_cons, ih (fun q hq => sub (List.mem_cons_of_mem p hq)), lookup_put]
    by_cases later : ∃ q ∈ ps, q.name = name
    · have some : ∃ q ∈ p :: ps, q.name = name := by
        obtain ⟨q, hq, same⟩ := later
        exact ⟨q, List.mem_cons_of_mem p hq, same⟩
      rw [if_pos later, if_pos some]
    · rw [if_neg later]
      by_cases same : name = p.name
      · have some : ∃ q ∈ p :: ps, q.name = name := ⟨p, List.mem_cons_self, same.symm⟩
        rw [if_pos same, if_pos some, same, own]
      · have none : ¬ ∃ q ∈ p :: ps, q.name = name := by
          rintro ⟨q, hq, found⟩
          rcases List.mem_cons.mp hq with rfl | hq
          · exact same found.symm
          · exact later ⟨q, hq, found⟩
        rw [if_neg same, if_neg none]

/-- The lines of a configuration before the constants. -/
def heading (named : Bool) : List (List Char) := (generate named .defaults).take 3

theorem generate_eq (named : Bool) (vs : Values) :
    generate named vs = heading named ++ parameters.map (declare vs) := rfl

theorem heading_plain {named : Bool} {line : List Char} (h : line ∈ heading named) :
    readConst (trim line) = .nothing ∧ '\n' ∉ line ∧ line.getLast? ≠ some '\r' := by
  have all : ∀ named, ∀ line ∈ heading named,
      readConst (trim line) = .nothing ∧ '\n' ∉ line ∧ line.getLast? ≠ some '\r' := by
    decide +kernel
  exact all named line h

theorem declare_unbroken {vs : Values} (full : vs.Full) {p : Parameter} (mem : p ∈ parameters) :
    '\n' ∉ declare vs p ∧ (declare vs p).getLast? ≠ some '\r' := by
  have plain := plain_of_mem mem
  have value := full.unbroken p.name _ (full.lookup mem)
  have words : '\n' ∉ constWords := by decide
  rw [declare_eq]
  constructor
  · simp [body, words, plain.feed, plain.feed', value]
  · rw [List.getLast?_append, getLast?_body]
    decide

/-- A configuration is read as it was written. -/
theorem lines_generate {vs : Values} (full : vs.Full) (named : Bool) :
    lines (ofLines (generate named vs)) = generate named vs := by
  apply lines_ofLines
  · intro line h
    rw [generate_eq, List.mem_append, List.mem_map] at h
    rcases h with h | ⟨p, mem, rfl⟩
    · exact (heading_plain h).2.1
    · exact (declare_unbroken full mem).1
  · intro line h
    rw [generate_eq, List.mem_append, List.mem_map] at h
    rcases h with h | ⟨p, mem, rfl⟩
    · exact (heading_plain h).2.2
    · exact (declare_unbroken full mem).2

/-- The constants of a full map are merged into the library's values without anything unknown, and
give the map again. -/
theorem merge_generate {vs : Values} (full : vs.Full) (named : Bool) :
    ∃ m, merge .defaults (ofLines (generate named vs)) = some m ∧ m.unknown = [] ∧
      ∀ name, m.values.lookup name = vs.lookup name := by
  have trimmed : ∀ p ∈ parameters, trim (vs.get p) = vs.get p := fun p mem =>
    full.trimmed p.name _ (full.lookup mem)
  let merged := parameters.foldl (fun values p => values.put p.name (vs.get p)) Values.defaults
  refine ⟨⟨merged, []⟩, ?_, rfl, ?_⟩
  · rw [merge, lines_generate full, generate_eq,
      mergeLines_nothing _ _ fun line h => (heading_plain h).1,
      mergeLines_declare vs trimmed parameters (List.Subset.refl _)]
  · intro name
    rw [lookup_foldl_put full parameters (List.Subset.refl _)]
    split
    · rfl
    · next unknown =>
      have absent : ∀ {values : Values}, values.Full → values.lookup name = none := by
        intro values h
        by_contra some
        exact unknown ((h.known name).mp (Option.isSome_iff_ne_none.mpr some))
      rw [absent full, absent full_defaults]

theorem take_drop_subset (cs : List Char) (start count : Nat) :
    (cs.drop start).take count ⊆ cs := by
  intro c hc
  exact (List.drop_sublist start cs).subset ((List.take_sublist count _).subset hc)

/-- A value that is read is a part of its line, without white space at its ends. -/
theorem readConst_value {line name value : List Char} (h : readConst line = .constant name value) :
    value ⊆ line ∧ trim value = value := by
  rw [readConst] at h
  split at h
  · generalize inner : trim (line.drop constWords.length) = text at h
    have part : text ⊆ line := by
      rw [← inner]
      intro c hc
      exact (List.drop_sublist _ line).subset (trim_subset _ hc)
    rw [readBody] at h
    split at h
    · cases h
    · split at h
      · cases h
      · dsimp only at h
        split at h
        · cases h
        · obtain ⟨rfl, rfl⟩ := ConstLine.constant.inj h
          constructor
          · intro c hc
            exact part (take_drop_subset text _ _ (trim_subset _ hc))
          · exact trim_trim _
  · cases h

theorem mergeLine_full {m m' : Merged} {line : List Char} (full : m.values.Full)
    (unbroken : '\n' ∉ line) (h : mergeLine m line = some m') : m'.values.Full := by
  rw [mergeLine] at h
  split at h
  · exact Option.some.inj h ▸ full
  · cases h
  · next name value read =>
    obtain ⟨part, trimmed⟩ := readConst_value read
    have whole : '\n' ∉ value := fun feed => unbroken (trim_subset line (part feed))
    split at h
    · next p found =>
      rw [← Option.some.inj h]
      exact full.put (List.mem_of_find?_eq_some found) whole trimmed
    · exact Option.some.inj h ▸ full

theorem mergeLines_full (ls : List (List Char)) (unbroken : ∀ line ∈ ls, '\n' ∉ line)
    {m m' : Merged} (full : m.values.Full) (h : mergeLines m ls = some m') : m'.values.Full := by
  induction ls generalizing m with
  | nil => exact Option.some.inj h ▸ full
  | cons line ls ih =>
    rw [mergeLines] at h
    split at h
    · next next read =>
      have kept := mergeLine_full full (unbroken line List.mem_cons_self) read
      exact ih (fun l hl => unbroken l (List.mem_cons_of_mem line hl)) kept h
    · cases h

/-- Every map that a user's file leads to is full. -/
theorem merge_full {content : List Char} {m : Merged} (h : merge .defaults content = some m) :
    m.values.Full :=
  mergeLines_full _ (fun _ mem => not_mem_of_mem_lines mem) full_defaults h

namespace Build

/-- The text of the configuration that a build writes. -/
def text (b : Build) : List Char := ofLines (b.config.map String.toList)

/-- The constants that a build writes. -/
def constants (b : Build) : List String :=
  b.config.filter fun line => startsWith constWords line.toList

end Build

/-- A build writes the configuration of a full map. -/
theorem build_eq {shown : String} {file : UserFile} {b : Build} (h : build shown file = some b) :
    ∃ named vs, Values.Full vs ∧ b.config = (generate named vs).map String.ofList := by
  cases file with
  | unnamed => exact ⟨false, .defaults, full_defaults, by rw [← Option.some.inj h]⟩
  | unreadable reason => exact ⟨true, .defaults, full_defaults, by rw [← Option.some.inj h]⟩
  | content text =>
    obtain ⟨m, merged, rfl⟩ := Option.map_eq_some_iff.mp h
    exact ⟨true, m.values, merge_full merged, rfl⟩

/-- The constants of a build are the declarations of all parameters. -/
theorem constants_eq {b : Build} {named : Bool} {vs : Values}
    (h : b.config = (generate named vs).map String.ofList) :
    b.constants = (parameters.map (declare vs)).map String.ofList := by
  have none : ∀ named, (heading named).filter (startsWith constWords) = [] := by decide +kernel
  have all : (parameters.map (declare vs)).filter (startsWith constWords) =
      parameters.map (declare vs) := by
    rw [List.filter_eq_self]
    intro line hl
    obtain ⟨p, -, rfl⟩ := List.mem_map.mp hl
    exact startsWith_declare vs p
  have plain : (fun line : String => startsWith constWords line.toList) ∘ String.ofList =
      startsWith constWords := by
    funext line
    simp
  rw [Build.constants, h, List.filter_map, plain, generate_eq, List.filter_append, none, all,
    List.nil_append]

theorem declare_congr {vs vs' : Values} (h : ∀ name, vs'.lookup name = vs.lookup name)
    (p : Parameter) : declare vs' p = declare vs p := by
  rw [declare, declare, Values.get, Values.get, h]

/-- A build that reads what a build wrote knows every name and writes the same constants. -/
theorem build_text {shown : String} {file : UserFile} {b : Build} (h : build shown file = some b)
    (shown' : String) :
    ∃ b', build shown' (.content b.text) = some b' ∧ b'.constants = b.constants ∧
      b'.printed = ["cargo:rerun-if-changed=" ++ shown',
        "cargo:warning=Using custom config: " ++ shown'] ++ closing := by
  obtain ⟨named, vs, full, config⟩ := build_eq h
  obtain ⟨m, merged, known, same⟩ := merge_generate full named
  have text : b.text = ofLines (generate named vs) := by
    have back : String.toList ∘ String.ofList = id := by
      funext line
      simp
    rw [Build.text, config, List.map_map, back, List.map_id]
  refine ⟨_, by rw [build, text, merged]; rfl, ?_, ?_⟩
  · rw [constants_eq config, @constants_eq _ true m.values rfl,
      List.map_congr_left fun p _ => declare_congr same p]
  · dsimp only
    rw [known]
    rfl

/-- The configuration of every full map, read over the library's values, gives exactly that map
again and names nothing unknown. Every map that a user's file leads to is full; so a build that is
given what a build wrote writes the same constants and warns of no name. -/
theorem generated_configuration_reads_back :
    (∀ vs : Values, vs.Full → ∀ named, ∃ m,
      merge .defaults (ofLines (generate named vs)) = some m ∧ m.unknown = [] ∧
        ∀ name, m.values.lookup name = vs.lookup name) ∧
    (∀ content m, merge .defaults content = some m → m.values.Full) ∧
    ∀ shown file b, build shown file = some b → ∀ shown', ∃ b',
      build shown' (.content b.text) = some b' ∧ b'.constants = b.constants ∧
        b'.printed = ["cargo:rerun-if-changed=" ++ shown',
          "cargo:warning=Using custom config: " ++ shown'] ++ closing := by
  refine ⟨?_, ?_, ?_⟩
  · intro vs full named
    exact merge_generate full named
  · intro content m merged
    exact merge_full merged
  · intro shown file b built shown'
    exact build_text built shown'

/-- A value of separators, with a carriage return and a wide space inside. -/
def separators : List Char := ": = 1;; // pub const\r:\u2003=;//".toList

/-- A user's file sets a parameter to a value of separators. -/
theorem separators_read_back :
    let content := "pub const MAX_EVENTS:usize=".toList ++ separators ++ " ;\r\n// end".toList
    ∃ m, merge .defaults content = some m ∧ m.values.Full ∧
      m.values.lookup "MAX_EVENTS" = some separators ∧
      (∃ m', merge .defaults (ofLines (generate true m.values)) = some m' ∧ m'.unknown = [] ∧
        m'.values.lookup "MAX_EVENTS" = some separators) ∧
      ∃ b b', build "user" (.content content) = some b ∧ build "own" (.content b.text) = some b' ∧
        b'.constants = b.constants := by
  intro content
  obtain ⟨again, full, rebuilt⟩ := generated_configuration_reads_back
  have reads : (merge .defaults content).isSome = true := by decide +kernel
  obtain ⟨m, merged⟩ := Option.isSome_iff_exists.mp reads
  have value : ((merge .defaults content).bind fun m => m.values.lookup "MAX_EVENTS") =
      some separators := by decide +kernel
  rw [merged, Option.bind_some] at value
  have valid := full content m merged
  obtain ⟨m', merged', unknown, same⟩ := again m.values valid true
  have built : (build "user" (.content content)).isSome = true := by decide +kernel
  obtain ⟨b, built⟩ := Option.isSome_iff_exists.mp built
  obtain ⟨b', rebuilt, constants, -⟩ := rebuilt "user" (.content content) b built "own"
  exact ⟨m, merged, valid, value, ⟨m', merged', unknown, by rw [same, value]⟩, b, b', built,
    rebuilt, constants⟩

end Fibers.Config
