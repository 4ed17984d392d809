import Vassal.Proofs.Options.Param
import Vassal.Proofs.Section.Chain
import Vassal.Proofs.Text.Joined

-- How much of a logger can be read in the text that is stored for it.
--
-- The text is the name of the kind and then the fields. Fields that are not given leave no gap, and
-- for Redis the colons at the end are cut off, so that some loggers of Redis have the same text.

namespace Vassal

namespace Text

section Colons

theorem dropEnd_colon_cons (cs : List Char) :
    dropEnd (· == ':') (':' :: cs) =
      if dropEnd (· == ':') cs = [] then [] else ':' :: dropEnd (· == ':') cs :=
  dropEnd_append _ [':'] cs

theorem dropEnd_colon_cons_inj {first second : List Char} :
    dropEnd (· == ':') (':' :: first) = dropEnd (· == ':') (':' :: second) ↔
      dropEnd (· == ':') first = dropEnd (· == ':') second := by
  rw [dropEnd_colon_cons, dropEnd_colon_cons]
  split <;> split <;> simp_all

end Colons

end Text

namespace Logger

def kind : Logger → String
  | file _ => "file"
  | syslog _ _ => "syslog"
  | socket _ => "socket"
  | stdio => "stdio"
  | redis _ _ _ => "redislog"

theorem kind_word (l : Logger) : l.kind.toList ≠ [] ∧
    ∀ c ∈ l.kind.toList, Text.isBlank c = false ∧ (c == ':') = false := by
  have hall : ∀ word ∈ ["file", "syslog", "socket", "stdio", "redislog"], word.toList ≠ [] ∧
      (word.toList.all fun c => !Text.isBlank c && !(c == ':')) = true := by decide
  obtain ⟨hne, hchars⟩ := hall l.kind (by cases l <;> simp [kind])
  exact ⟨hne, by simpa using hchars⟩

-- The fields that are given, in the order in which they are written.
def fields : Logger → List String
  | file path => [path]
  | syslog appName facility => appName :: facility.toList
  | socket address => [address]
  | stdio => []
  | redis address command channel => address.toList ++ command.toList ++ channel.toList

-- Whether colons at the ends of the text are cut off.
def stripped : Logger → Bool
  | stdio | redis _ _ _ => true
  | file _ | syslog _ _ | socket _ => false

theorem toParam_spec (l : Logger) :
    l.toParam.labelled = l.kind ++ ":" ++ String.intercalate "," l.fields ∧
    l.toParam.label = none ∧ l.toParam.separator = ":" ∧ l.toParam.stripped = l.stripped := by
  cases l with
  | file | socket | stdio => exact ⟨rfl, rfl, rfl, rfl⟩
  | syslog appName facility => cases facility <;> exact ⟨rfl, rfl, rfl, rfl⟩
  | redis address command channel =>
    cases address <;> cases command <;> cases channel <;> exact ⟨rfl, rfl, rfl, rfl⟩

-- No field has a blank or a comma in it.
def Unbroken (l : Logger) : Prop :=
  ∀ field ∈ l.fields, ∀ c ∈ field.toList, Text.isBlank c = false ∧ c ≠ ','

instance (l : Logger) : Decidable l.Unbroken :=
  decidable_of_iff (l.fields.all fun field => field.toList.all fun c => !Text.isBlank c && c != ',')
    (by simp [Unbroken])

def text (l : Logger) : String :=
  l.toParam.render

-- What follows the name of the kind.
def detail (l : Logger) : List Char :=
  let written := ':' :: (String.intercalate "," l.fields).toList
  if l.stripped then Text.dropEnd (· == ':') written else written

namespace Unbroken

variable {l l' : Logger} (h : l.Unbroken)
include h

theorem comma_not_mem {field : String} (hfield : field ∈ l.fields) :
    ',' ∉ field.toList :=
  fun hcomma => (h field hfield ',' hcomma).2 rfl

theorem isBlank_eq_false {c : Char}
    (hc : c ∈ (String.intercalate "," l.fields).toList) : Text.isBlank c = false := by
  obtain rfl | ⟨field, hfield, hmem⟩ := Text.mem_commas hc
  · rfl
  · exact (h field hfield c hmem).1

theorem toList_text : l.text.toList = l.kind.toList ++ l.detail := by
  have hkind := l.kind_word
  let written := ':' :: (String.intercalate "," l.fields).toList
  have hwritten : ∀ c ∈ written, Text.isBlank c = false :=
    List.forall_mem_cons.mpr ⟨rfl, fun c hc => h.isBlank_eq_false hc⟩
  obtain ⟨hlabelled, -, hseparator, hstripped⟩ := l.toParam_spec
  have hlist : l.toParam.labelled.toList = l.kind.toList ++ written := by
    rw [hlabelled, String.toList_append, String.toList_append, List.append_assoc]
    rfl
  have hcolon : (l.toParam.separator.toList.contains ·) = (· == ':') := by
    funext c
    rw [hseparator]
    exact Bool.or_false _
  have hword : ∀ c ∈ l.kind.toList,
      Text.isBlank c = false ∧ l.toParam.separator.toList.contains c = false :=
    fun c hc => ⟨(hkind.2 c hc).1, (congrFun hcolon c).trans (hkind.2 c hc).2⟩
  rw [text, Param.toList_render hlist hkind.1 hword, hcolon, Text.dropEnd_eq_self hwritten,
    hstripped, detail]

-- A detail begins with a colon, if there is any, and a kind has none in it.
theorem takeWhile_toList_text : l.text.toList.takeWhile (· != ':') = l.kind.toList := by
  have hkind : ∀ c ∈ l.kind.toList, (c != ':') = true := fun c hc => by
    simp [bne, (l.kind_word.2 c hc).2]
  have hdetail : l.detail.takeWhile (· != ':') = [] := by
    unfold detail
    dsimp only
    split
    · rw [Text.dropEnd_colon_cons]
      split <;> rfl
    · rfl
  rw [h.toList_text, List.takeWhile_append_of_pos hkind, hdetail, List.append_nil]

theorem text_eq_iff (h' : l'.Unbroken) :
    l.text = l'.text ↔ l.kind = l'.kind ∧ l.detail = l'.detail := by
  constructor
  · intro htext
    have hkind : l.kind.toList = l'.kind.toList := by
      rw [← h.takeWhile_toList_text, htext, h'.takeWhile_toList_text]
    have hlist : l.kind.toList ++ l.detail = l'.kind.toList ++ l'.detail := by
      rw [← h.toList_text, htext, h'.toList_text]
    rw [hkind] at hlist
    exact ⟨String.toList_inj.mp hkind, List.append_cancel_left hlist⟩
  · rintro ⟨hkind, hdetail⟩
    rw [← String.toList_inj, h.toList_text, h'.toList_text, hkind, hdetail]

end Unbroken

section Legible

-- As much of the fields as can be read in the text of a logger of Redis. No field at all reads like
-- one without content.
def legible : List String → List String
  | [] => [""]
  | [last] => [String.ofList (Text.dropEnd (· == ':') last.toList)]
  | first :: second :: rest => first :: legible (second :: rest)

theorem legible_ne_nil (fields : List String) : legible fields ≠ [] := by
  fun_cases legible fields <;> exact List.cons_ne_nil _ _

theorem comma_not_mem_legible {fields : List String}
    (hfields : ∀ field ∈ fields, ',' ∉ field.toList) :
    ∀ part ∈ legible fields, ',' ∉ part.toList := by
  fun_induction legible fields with
  | case1 => simp
  | case2 last =>
    have hfront : Text.dropEnd (· == ':') last.toList <+: last.toList := List.rdropWhile_prefix _ _
    have hlast := hfields last List.mem_cons_self
    simpa using fun hcomma => hlast (hfront.subset hcomma)
  | case3 first second rest ih =>
    obtain ⟨hfirst, hrest⟩ := List.forall_mem_cons.mp hfields
    exact List.forall_mem_cons.mpr ⟨hfirst, ih hrest⟩

theorem toList_commas_legible (fields : List String) :
    (String.intercalate "," (legible fields)).toList =
      Text.dropEnd (· == ':') (String.intercalate "," fields).toList := by
  fun_induction legible fields with
  | case1 => rfl
  | case2 last =>
    rw [String.intercalate_singleton, String.intercalate_singleton, String.toList_ofList]
  | case3 first second rest ih =>
    rw [Text.toList_commas_cons (legible_ne_nil _), ih,
      Text.toList_commas_cons (List.cons_ne_nil _ _), Text.dropEnd_append_cons rfl]

end Legible

-- Both go to Redis, and as much of their fields as can be read is the same.
def Alike (l l' : Logger) : Prop :=
  l.kind = "redislog" ∧ l'.kind = "redislog" ∧ legible l.fields = legible l'.fields

instance (l l' : Logger) : Decidable (l.Alike l') :=
  inferInstanceAs (Decidable (_ ∧ _))

namespace Unbroken

variable {l l' : Logger} (h : l.Unbroken) (h' : l'.Unbroken)
include h h'

theorem detail_eq_iff_of_redis (hkind : l.kind = "redislog") (hkind' : l'.kind = "redislog") :
    l.detail = l'.detail ↔ legible l.fields = legible l'.fields := by
  have hdetail {k : Logger} (hk : k.kind = "redislog") : k.detail =
      Text.dropEnd (· == ':') (':' :: (String.intercalate "," k.fields).toList) := by
    cases k with
    | redis => rfl
    | file | syslog | socket | stdio => simp [kind] at hk
  rw [hdetail hkind, hdetail hkind', Text.dropEnd_colon_cons_inj, ← toList_commas_legible,
    ← toList_commas_legible, String.toList_inj]
  exact Text.commas_inj (comma_not_mem_legible fun _ => h.comma_not_mem)
    (comma_not_mem_legible fun _ => h'.comma_not_mem) (legible_ne_nil _) (legible_ne_nil _)

-- Of the other kinds all fields can be read.
theorem eq_of_detail_eq (hkind : l.kind = l'.kind) (hredis : l.kind ≠ "redislog")
    (hdetail : l.detail = l'.detail) : l = l' := by
  have hgiven {given other : Option String} : given.toList = other.toList ↔ given = other :=
    ⟨fun h => by simpa using congrArg List.head? h, congrArg _⟩
  cases l with
  | redis => exact absurd rfl hredis
  | stdio => cases l' <;> simp [kind] at hkind ⊢
  | file | syslog | socket =>
    cases l' <;> simp only [kind, String.reduceEq] at hkind
    have hcommas := String.toList_inj.mp (List.cons.inj hdetail).2
    have hfields := (Text.commas_inj (fun _ => h.comma_not_mem) (fun _ => h'.comma_not_mem)
      (List.cons_ne_nil _ _) (List.cons_ne_nil _ _)).mp hcommas
    simpa [fields, hgiven] using hfields

theorem text_eq_iff_alike : l.text = l'.text ↔ l = l' ∨ l.Alike l' := by
  rw [h.text_eq_iff h']
  constructor
  · rintro ⟨hkind, hdetail⟩
    by_cases hredis : l.kind = "redislog"
    · have hredis' : l'.kind = "redislog" := hkind ▸ hredis
      exact .inr ⟨hredis, hredis', (h.detail_eq_iff_of_redis h' hredis hredis').mp hdetail⟩
    · exact .inl (h.eq_of_detail_eq h' hkind hredis hdetail)
  · rintro (rfl | ⟨hredis, hredis', hlegible⟩)
    · exact ⟨rfl, rfl⟩
    · exact ⟨hredis.trans hredis'.symm, (h.detail_eq_iff_of_redis h' hredis hredis').mpr hlegible⟩

end Unbroken

theorem appends_text (l : Logger) (key : String) :
    (Mutation.adding key (.param { l.toParam with label := none })).Appends (key, l.text) := by
  refine Mutation.appends_of_keys rfl rfl rfl rfl (Mutation.keys_adding_logger key l none) ?_
  have hlabel : ({ l.toParam with label := none } : Param) = l.toParam := by
    rw [← l.toParam_spec.2.1]
  rw [hlabel]
  rfl

end Logger

namespace Section

def loggerKey (requestsOnly : Bool) : String :=
  if requestsOnly then "req-logger" else "logger"

-- A logger adds one text to those that stand under its option.
theorem texts_addLogger (s : Section) (l : Logger) (requestsOnly : Bool) :
    (s.addLogger l requestsOnly none).options.texts (loggerKey requestsOnly) =
      s.options.texts (loggerKey requestsOnly) ++ [l.text] := by
  let key := loggerKey requestsOnly
  have hkey : key ∉ ["plugin"] := by
    cases requestsOnly <;> decide
  obtain ⟨options, hedit, happly⟩ := l.appends_text key ((s.enter loggingKind).enter loggingKind)
  have hadded : (s.addLogger l requestsOnly none).options = options.extend key [l.text] := happly
  rw [hadded, Store.texts_extend, Store.texts_congr_without _ _ _ _ hkey hedit.without]
  rfl

-- Two loggers without blanks and commas are stored as one text exactly if they are the same, or
-- both go to Redis and the same is given in the same order, up to colons at the end of the last
-- field.
theorem logger_texts_eq_iff {l l' : Logger} (h : l.Unbroken) (h' : l'.Unbroken) (s : Section)
    (requestsOnly : Bool) :
    let key := loggerKey requestsOnly
    let stored := fun k : Logger => (s.addLogger k requestsOnly none).options.texts key
    stored l = s.options.texts key ++ [l.text] ∧ stored l' = s.options.texts key ++ [l'.text] ∧
      (l.text = l'.text ↔ l = l' ∨ l.Alike l') :=
  ⟨s.texts_addLogger l requestsOnly, s.texts_addLogger l' requestsOnly, h.text_eq_iff_alike h'⟩

-- Two fields are told apart from three.
theorem logger_texts_told_apart :
    let two := Logger.redis (some "10.0.0.1:6379") none (some "app:")
    let three := Logger.redis (some "10.0.0.1:6379") (some "publish") (some "app")
    two.Unbroken ∧ three.Unbroken ∧ two.text ≠ three.text := by
  have htwo : (Logger.redis (some "10.0.0.1:6379") none (some "app:")).Unbroken := by
    decide
  have hthree : (Logger.redis (some "10.0.0.1:6379") (some "publish") (some "app")).Unbroken := by
    decide
  refine ⟨htwo, hthree, fun htext => ?_⟩
  obtain ⟨-, -, hiff⟩ := logger_texts_eq_iff htwo hthree ∅ false
  exact absurd (hiff.mp htext) (by decide)

-- A field in another place, and a field with a colon more.
theorem redis_loggers_alike :
    let address := Logger.redis (some "jobs") none none
    let command := Logger.redis none (some "jobs") none
    let colon := Logger.redis (some "jobs:") none none
    address ≠ command ∧ address ≠ colon ∧
    ∀ l ∈ [address, command, colon], l.Unbroken ∧ (∀ field ∈ l.fields, field ≠ "") ∧
      ((∅ : Section).addLogger l false none).options.texts "logger" = ["redislog:jobs"] := by
  decide

end Section

end Vassal
