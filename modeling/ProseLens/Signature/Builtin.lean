import ProseLens.Signature.Prototype
import ProseLens.Signature.Registry

/-! # Built-in signatures

Citations, references and acronyms become placeholders, so that the sentence around them stays
whole; commands of the preamble and of the layout vanish with their arguments.

Many names take the same forms of arguments, so the table lists families: the forms in the order
in which they are filed, and the names that take them. -/

namespace ProseLens.Signature.Builtin

/-- A mandatory argument. -/
abbrev m : Delimiter := .brace

/-- An optional argument. -/
abbrev o : Delimiter := .bracket

/-- An argument in parentheses. -/
abbrev p : Delimiter := .parenthesis

/-- Names that take the same forms of arguments. -/
structure Family where
  /-- The forms of arguments. -/
  forms : List (List Delimiter)
  /-- The names. -/
  names : List String

/-- The signatures of a family: for each name, one per form. -/
def Family.signatures (action : Action) (family : Family) : List Command :=
  family.names.flatMap fun name => family.forms.map fun arguments => ⟨name, arguments, action⟩

/-- Commands that are read as a placeholder for one thing. -/
def singular : List Family :=
  [⟨[[m], [o, m]],
     ["\\ac", "\\Ac", "\\ac*", "\\Ac*", "\\aca", "\\Aca", "\\aca*", "\\Aca*", "\\acap", "\\Acap",
      "\\acap*", "\\Acap*", "\\acf", "\\Acf", "\\acf*", "\\Acf*", "\\acfp", "\\Acfp", "\\acfp*",
      "\\Acfp*", "\\acl", "\\Acl", "\\acl*", "\\Acl*", "\\aclp", "\\Aclp", "\\aclp*", "\\Aclp*",
      "\\acp", "\\Acp", "\\acp*", "\\Acp*", "\\acs", "\\Acs", "\\acs*", "\\Acs*", "\\acsp",
      "\\Acsp", "\\acsp*", "\\Acsp*", "\\citealp", "\\citealp*", "\\citealt", "\\citealt*",
      "\\citep", "\\citep*", "\\citet", "\\citet*", "\\iac", "\\Iac", "\\iac*", "\\Iac*",
      "\\iaca", "\\Iaca", "\\iaca*", "\\Iaca*", "\\iacf", "\\Iacf", "\\iacf*", "\\Iacf*",
      "\\iacl", "\\Iacl", "\\iacl*", "\\Iacl*", "\\iacs", "\\Iacs", "\\iacs*", "\\Iacs*"]⟩,
   ⟨[[m], [o, m], [o, o, m]],
     ["\\autocite", "\\Autocite", "\\autocite*", "\\Autocite*", "\\cite", "\\Cite", "\\cite*",
      "\\citeauthor", "\\Citeauthor", "\\citeauthor*", "\\Citeauthor*", "\\citedate",
      "\\citedate*", "\\citetitle", "\\citetitle*", "\\citeurl", "\\citeyear", "\\citeyear*",
      "\\footcite", "\\footcitetext", "\\parencite", "\\parencite*", "\\Parencite", "\\smartcite",
      "\\Smartcite", "\\textcite", "\\Textcite"]⟩,
   ⟨[[m]],
     ["\\arabic", "\\autopageref", "\\autopageref*", "\\autoref", "\\autoref*", "\\cref",
      "\\Cref", "\\email", "\\eqref", "\\nolinkurl", "\\pageref", "\\pageref*", "\\ref", "\\ref*",
      "\\supercite", "\\textproc", "\\url"]⟩,
   ⟨[[]],
     ["\\KOMAScript", "\\LaTeX", "\\TeX"]⟩,
   ⟨[[m, m], [o, m, m]],
     ["\\foreignlanguage", "\\lettrine"]⟩,
   ⟨[[m, m]],
     ["\\href"]⟩]

/-- Commands that are read as a placeholder for several things. -/
def plural : List Family :=
  [⟨[[m], [m, m], [m, m, m], [m, m, m, m], [m, m, m, m, m], [p, p, o, o, m],
      [p, p, o, o, m, o, o, m], [p, p, o, o, m, o, o, m, o, o, m],
      [p, p, o, o, m, o, o, m, o, o, m, o, o, m],
      [p, p, o, o, m, o, o, m, o, o, m, o, o, m, o, o, m]],
     ["\\autocites", "\\Autocites", "\\cites", "\\Cites", "\\textcites", "\\Textcites"]⟩]

/-- Commands that vanish with their arguments. -/
def silent : List Family :=
  [⟨[[m]],
     ["\\acreset", "\\acsetup", "\\acuse", "\\addbibresource", "\\addtocontents",
      "\\addtotheorempostheadhook", "\\babeltags", "\\bibitem", "\\bibliography",
      "\\bibliographystyle", "\\captionof", "\\clearfield", "\\colorbox",
      "\\DeclareGraphicsExtensions", "\\directlua", "\\DisableLigatures", "\\enlargethispage",
      "\\etocsetnexttocdepth", "\\fcolorbox", "\\floatstyle", "\\geometry", "\\graphicspath",
      "\\hypersetup", "\\ifcurrentfield", "\\ifentrytype", "\\@ifpackageloaded", "\\iftoggle",
      "\\include", "\\input", "\\KOMAoptions", "\\label", "\\linespread", "\\luadirect",
      "\\luaexec", "\\newboolean", "\\newcounter", "\\newgeometry", "\\newtoggle", "\\pagecolor",
      "\\pagenumbering", "\\pagestyle", "\\pgfmathsetseed", "\\raisebox", "\\RequirePackage",
      "\\scalebox", "\\selectlanguage", "\\setboolean", "\\setcopyright", "\\setenumerate",
      "\\setglossarystyle", "\\setitemize", "\\setstretch", "\\sisetup", "\\stepcounter",
      "\\SweaveInput", "\\SweaveOpts", "\\SweaveSyntax", "\\theoremstyle", "\\thispagestyle",
      "\\tikz", "\\tikzset", "\\togglefalse", "\\toggletrue", "\\usebibmacro", "\\usekomafont",
      "\\usetikzlibrary", "\\value", "\\vspace", "\\vspace*"]⟩,
   ⟨[[m, m]],
     ["\\addtocounter", "\\addtokomafont", "\\@addtoreset", "\\algnewcommand",
      "\\algrenewcommand", "\\AtBeginEnvironment", "\\AtEndEnvironment", "\\colorlet",
      "\\DeclareAcronym", "\\DeclareCaptionFormat", "\\DeclareCaptionLabelFormat",
      "\\DeclareFieldFormat*", "\\DeclareMathOperator", "\\DeclareMathOperator*",
      "\\DeclareNameAlias", "\\defbibcheck", "\\defbibfilter", "\\defbibnote", "\\etocsetlevel",
      "\\etocsettocstyle", "\\floatname", "\\GenericWarning", "\\mdfdefinestyle", "\\multicolumn",
      "\\multirow", "\\newcolumntype", "\\newglossaryentry", "\\newglossarystyle",
      "\\newtheorem*", "\\PackageWarning", "\\renewbibmacro", "\\renewbibmacro*", "\\setcounter",
      "\\setkomafont", "\\setlength", "\\@setplength", "\\setuptoc", "\\unsettoc",
      "\\WarningFilter"]⟩,
   ⟨[[m], [o, m]],
     ["\\automark", "\\automark*", "\\captionsetup", "\\color", "\\DeclareNewTOC",
      "\\declaretheorem", "\\declaretheoremstyle", "\\documentclass", "\\footnote",
      "\\includegraphics", "\\includepdf", "\\RedeclareSectionCommand",
      "\\RedeclareSectionCommands", "\\setlist", "\\textcolor", "\\todo", "\\usepackage"]⟩,
   ⟨[[m, m, m]],
     ["\\addcontentsline", "\\addxcontentsline", "\\crefname", "\\Crefname", "\\definecolor",
      "\\definespotcolor", "\\glsaddstoragekey", "\\pgfdeclaredecoration", "\\renewlist",
      "\\setparsizes"]⟩,
   ⟨[[m, m], [m, o, m]],
     ["\\defbibheading", "\\providecommand", "\\providecommand*", "\\setkomavar",
      "\\setkomavar*"]⟩,
   ⟨[[m, m], [m, o, m], [m, o, o, m]],
     ["\\newcommand", "\\newcommand*", "\\renewcommand", "\\renewcommand*"]⟩,
   ⟨[[m, m, m], [m, o, m, m]],
     ["\\newenvironment", "\\newenvironment*", "\\renewenvironment", "\\renewenvironment*"]⟩,
   ⟨[[m, m], [o, m, m]],
     ["\\DeclareFieldFormat", "\\DeclareSIUnit", "\\pdfbookmark"]⟩,
   ⟨[[], [o]],
     ["\\printacronyms", "\\printbibliography", "\\printglossary"]⟩,
   ⟨[[]],
     ["\\acresetall", "\\acuseall"]⟩,
   ⟨[[o]],
     ["\\hyperref", "\\newrefcontext"]⟩,
   ⟨[[m, o, m, m]],
     ["\\algdef"]⟩,
   ⟨[[m, m, m, m, m], [m, o, m, m, m, m]],
     ["\\DeclareCiteCommand"]⟩,
   ⟨[[m, m, m, m, m]],
     ["\\DeclareMathAlphabet"]⟩,
   ⟨[[m], [o, m, m]],
     ["\\DeclareTOCStyleEntry"]⟩,
   ⟨[[m, m, m, m]],
     ["\\defbibenvironment"]⟩,
   ⟨[[m, m, m], [m, m, m, o]],
     ["\\newfloat"]⟩,
   ⟨[[m, m], [m, m, o], [m, o, m], [m, o, m, o]],
     ["\\newtheorem"]⟩,
   ⟨[[m, m, m, m, m, m]],
     ["\\SetMathAlphabet"]⟩]

/-- All built-in commands. -/
def commands : List Command :=
  singular.flatMap (Family.signatures (.placeholder .singular)) ++
    plural.flatMap (Family.signatures (.placeholder .several)) ++
    silent.flatMap (Family.signatures .ignore)

/-- Environments whose bodies never reach the checker. -/
def ignoredEnvironments : List String :=
  ["lstlisting", "otherlanguage", "otherlanguage*", "tikzpicture", "verbatim"]

/-- All built-in environments. -/
def environments : List Environment :=
  ignoredEnvironments.filterMap (Environment.ofPrototype? · .ignore)

end ProseLens.Signature.Builtin

namespace ProseLens.Signature

/-- The registry of the built-in signatures. -/
def Registry.builtin : Registry :=
  Registry.empty.extend Builtin.commands Builtin.environments

end ProseLens.Signature
