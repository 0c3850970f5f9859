import LogQuery.Operation.Id
import LogQuery.Quoting.Escape
import LogQuery.Quoting.Mark

/-!
# Quoting

A text that the query syntax would not read back as one word is written between quote
marks. The first mark that the text lacks is taken, in the order backtick, double,
single: nothing is escaped between backticks, and between the other two a backslash is
doubled. A text with all three marks is written between backticks with its own
backticks escaped. Reading removes the marks and the escapes again.
-/

namespace LogQuery

namespace Quoting

/-- Words with a meaning of their own inside some operation. -/
def clauseWords : List Text :=
  ["by", "limit", "as", "from", "keep_original_fields", "skip_empty_results", "if", "prettify",
   "max_values_per_field", "max_value_len", "keep_const_fields", "partition", "desc", "inner",
   "prefix", "offset", "before", "after", "time_window", "hits", "rank", "with",
   "result_prefix", "fields", "drop_duplicates", "concurrency", "ignore_global_time_filter",
   "i", "at", "in"]

/-- Characters with a meaning in query text. -/
def isReserved (c : Char) : Bool :=
  [' ', '\'', '"', '`', ':', '=', '#', '>', '<', ',', '(', ')', '[', ']', '{', '}', '+', '-',
   '/', '%', '|', '&', '^', '~', '!', ';', '?', '@', '\\', '*'].contains c

/-- The word collides with an operation or clause word in any case, or holds a reserved
character. White space at the ends does not count. -/
def mustQuote (word : Text) : Bool :=
  let w := word.trim.lower
  OperationId.all.any (fun id => id.keyword == w) || clauseWords.contains w || w.any isReserved

/-- The text between two marks. -/
def between (m : QuoteMark) (t : Text) : Text := m.char :: (t ++ [m.char])

/-- The text in quotes, whatever it holds. -/
def enclose (mode : EscapeMode) (t : Text) : Text :=
  if !t.contains '`' then between .backtick t
  else if !t.contains '"' then between .double (Escape.add mode '\\' t)
  else if !t.contains '\'' then between .single (Escape.add mode '\\' t)
  else between .backtick (Escape.add mode '`' t)

/-- The text in double quotes, whatever it holds, with every escape. -/
def inDoubleQuotes (t : Text) : Text :=
  between .double (Escape.addAll '"' (Escape.addAll '\\' t))

/-- Quotes the text when it needs quotes or `force` is `some true`. With `some false` a
blank text is quoted as well, so that it can be seen. -/
def quoteWith (t : Text) (force : Option Bool) (mode : EscapeMode) : Text :=
  if mustQuote t || force == some true || (force == some false && t.allBlank) then
    enclose mode t
  else t

/-- Quotes the text when it needs quotes, with every escape. -/
def quote (t : Text) : Text := quoteWith t none .all

/-- Removes the escapes that a text between two marks carries. -/
def unescape (mode : EscapeMode) : QuoteMark → Text → Text
  | .backtick, t => Escape.remove mode '`' t
  | m, t => Escape.remove mode '\\' (Escape.remove mode m.char t)

/-- The text without its marks and escapes. A text that does not start and end with the
same mark is left alone, and a single mark is the empty text. -/
def unquoteWith (t : Text) (mode : EscapeMode) : Text :=
  match t with
  | [] => []
  | c :: rest =>
    match QuoteMark.ofChar? c with
    | none => t
    | some m => if t.getLast? == some c then unescape mode m rest.dropLast else t

/-- Removes marks and every escape. -/
def unquote (t : Text) : Text := unquoteWith t .all

end Quoting

end LogQuery
