import ApiPages.Template.Tree

/-!
The default layout: the templates that lay out a page when nothing else is asked for. Each stands
under a name, by which others use it and by which it can be replaced.
-/
namespace ApiPages.Template.Layout

def say (s : String) : Node := .text s

def put (path : String) : Node := .print (.path path)

def each (variableName path : String) (body : List Node) : Node := .loop variableName (.path path) body []

def given (path : String) (body : List Node) : Node := .branch (.path path) body []

def is (path s : String) : Expr := .operation .equal (.path path) (.literal (.string s))

def isNot (path s : String) : Expr := .operation .differs (.path path) (.literal (.string s))

def byFormat (path : String) (table grouped otherwise : List Node) : Node :=
  .branch (is path "table") table [.branch (is path "grouped") grouped otherwise]

def rowLink : List Node := [say "[", put "row.name", say "](#", put "row.anchor", say ")"]

def indexTable (subject rows : String) (suffix : List Node) : List Node := [
  say ("| " ++ subject ++ " | Description |\n| --- | --- |\n"),
  each "row" rows <|
    say "| " :: rowLink ++ suffix ++ [say " | ", put "row.summary", say " |\n"],
  say "\n"]

def indexBullets (rows : String) (suffix : List Node) : List Node := [
  each "row" rows (say "* " :: rowLink ++ suffix ++ [say "\n"]),
  say "\n"]

def indexDefinitions (rows : String) (suffix : List Node) : List Node := [
  say "<dl>\n",
  each "row" rows <|
    [say "<dt><a href=\"#", put "row.anchor", say "\">", put "row.name", say "</a>"] ++ suffix ++
      [say "</dt>\n<dd>", given "row.summary" [say "<p>", put "row.summary", say "</p>"],
        say "\n</dd>\n"],
  say "</dl>\n"]

def index (format subject rows : String) (suffix : List Node) : Node :=
  byFormat format (indexTable subject rows suffix) (indexBullets rows suffix)
    (indexDefinitions rows suffix)

def whole : List Node := [.use "main-index", say "\n", .use "all-docs", say "\n"]

def mainIndex : List Node := [
  given "show_main_index" [.use "module-index", say "\n", .use "global-index", say "\n"]]

def moduleIndex : List Node := [
  .branch (.operation .and (.path "module_index") (isNot "formats.module_index" "none"))
    [put "index_heading", say " Modules\n\n",
      index "formats.module_index" "Module" "module_index" [], say "\n"]
    []]

def globalIndex : List Node := [
  .branch (isNot "formats.global_index" "none")
    [each "group" "global_index" [
      put "index_heading", say " ", put "group.title", say "\n\n",
      index "formats.global_index" "Global" "group.rows" [put "row.suffix"], say "\n"]]
    []]

def allDocs : List Node := [each "section" "sections" [.use "docs", say "\n"]]

def docs : List Node := [
  say "<a name=\"", put "section.anchor", say "\"></a>\n\n",
  .use "header", say "\n",
  given "section.deprecated" [put "section.deprecated", say "\n\n"],
  given "section.description" [put "section.description", say "\n\n"],
  .use "meta", say "\n",
  .use "returns", say "\n",
  .use "throws", say "\n\n",
  .use "params", say "\n",
  .use "properties", say "\n",
  .use "member-index", say "\n",
  .use "examples", say "\n",
  given "options.separators" [say "\n* * *\n"], say "\n"]

def header : List Node := [
  .print (.filtered (.path "section.level") "heading" []), say " ", put "section.heading", say "\n"]

def facts : List Node := [each "line" "section.meta" [put "line", say "  \n"]]

def returns : List Node := [
  each "text" "section.returns" [say "**Returns**: ", put "text", say "  \n"]]

def throws : List Node := [
  each "text" "section.throws" [say "**Throws**: ", put "text", say "  \n"]]

def paramTable (subject rows defaults : String) : List Node := [
  say ("| " ++ subject ++ " | Type |"), given defaults [say " Default |"],
  say " Description |\n| --- | --- |", given defaults [say " --- |"], say " --- |\n",
  each "p" rows [
    say "| ", put "p.name", say " | ", put "p.type", say " |",
    given defaults [say " ", put "p.default", say " |"],
    say " ", put "p.description", say " |\n"],
  say "\n"]

def paramBullets (rows : String) : List Node := [
  each "p" rows [
    say "- ", put "p.name", given "p.type" [say " ", put "p.type"],
    given "p.default" [say " = ", put "p.default"],
    given "p.description" [say " - ", put "p.description"], say "\n"],
  say "\n"]

def params : List Node := [
  given "section.params" [
    .branch (is "formats.param_list" "table")
      (paramTable "Param" "section.params" "section.param_defaults")
      (say "**Params**\n\n" :: paramBullets "section.params"),
    say "\n"]]

def properties : List Node := [
  given "section.properties" [
    say "**Properties**\n\n",
    .branch (is "formats.property_list" "table")
      (paramTable "Name" "section.properties" "section.property_defaults")
      (paramBullets "section.properties"),
    say "\n"]]

def memberIndex : List Node := [
  given "section.member_index" [
    each "row" "section.member_index" [
      .print (.filtered (.path "row.depth") "nest" []), say "* ", put "row.text", say "\n"],
    say "\n"]]

def examples : List Node := [
  each "example" "section.examples" [
    say "**Example**", given "example.caption" [say " *(", put "example.caption", say ")*"],
    say "  \n",
    .print (.filtered (.path "example.code") "code_block"
      [("lang", .path "options.example_lang"), ("gfm", .path "options.gfm")]),
    say "\n\n"]]

def templates : List Named := [
  ⟨"main", whole⟩, ⟨"main-index", mainIndex⟩, ⟨"module-index", moduleIndex⟩,
  ⟨"global-index", globalIndex⟩, ⟨"all-docs", allDocs⟩, ⟨"docs", docs⟩, ⟨"header", header⟩,
  ⟨"meta", facts⟩, ⟨"returns", returns⟩, ⟨"throws", throws⟩, ⟨"params", params⟩,
  ⟨"properties", properties⟩, ⟨"member-index", memberIndex⟩, ⟨"examples", examples⟩]

end ApiPages.Template.Layout
