import Pypiron.Markdown
import Pypiron.MarkupPages
import Pypiron.VerifyIndex

/-! The package indexes as they are rendered: the HTML page with its links, and the JSON
document with its files. -/
namespace Pypiron.Render
open Markdown (HtmlEscape escapeText escapeAttribute)
open VerifyIndex (FileMetadata)

def apiVersion : String := "1.4"

/-! ### Versions in filenames -/

section Names
variable (isVersion : String → Bool)

def sdistExts : List String := [".tar.gz", ".tar.bz2", ".tar.xz", ".zip", ".tgz"]

def toAsciiLowercase (text : String) : String := String.ofList (text.toList.map Char.toLower)

def stripSdistExt (filename : String) : Option String :=
  let lower := (toAsciiLowercase filename).toList
  (sdistExts.find? fun ext => ext.toList.isSuffixOf lower).map fun ext =>
    String.ofList (filename.toList.take (filename.toList.length - ext.toList.length))

/-- The first dash after which a version stands; `name` is what has been passed. -/
def splitStem (name : List Char) : List Char → Option (String × String)
  | [] => none
  | c :: rest =>
    if c = '-' && isVersion (String.ofList rest) then some (String.ofList name, String.ofList rest)
    else splitStem (name ++ [c]) rest

def splitSdistStem (stem : String) : Option (String × String) := splitStem isVersion [] stem.toList

def inferVersionFromFilename (filename : String) : Option String :=
  match stripSuffix ".whl" filename with
  | some stem => ((stem.toList.splitOn '-')[1]?).map String.ofList
  | none => (stripSdistExt filename).bind fun stem => (splitSdistStem isVersion stem).map Prod.snd

end Names

/-! ### JSON -/

inductive CoreMetadata where
  | digest (sha256 : String)
  | available
  deriving DecidableEq

structure Pep691File where
  filename : String
  url : String
  hashes : List (String × String)
  size : ℕ
  uploadTime : Option String
  yanked : Yanked
  requiresPython : Option String
  coreMetadata : Option CoreMetadata
  provenance : Option String
  deriving DecidableEq

structure Pep691PkgIndex where
  apiVersion : String
  name : String
  projectStatus : Option ProjectStatusDoc
  versions : List String
  files : List Pep691File

def pep691File (package : String) (f : FileMetadata) : Pep691File where
  filename := f.filename
  url := "/files/" ++ package ++ "/" ++ f.filename
  hashes := [("sha256", f.sha256)]
  size := f.size
  uploadTime := f.uploadTime
  yanked := f.yanked
  requiresPython := f.requiresPython
  coreMetadata := if f.coreMetadata then
      some (f.coreMetadataSha256.elim .available .digest)
    else none
  provenance := if f.provenance then
      some ("/files/" ++ package ++ "/" ++ f.filename ++ ".provenance")
    else none

def isActive : ProjectStatus → Bool
  | .active => true
  | _ => false

def pep691ProjectJson (isVersion : String → Bool) (package : String) (files : List FileMetadata)
    (status : ProjectStatusDoc) : Pep691PkgIndex where
  apiVersion := apiVersion
  name := package
  projectStatus := if isActive status.status then none else some status
  versions := ((files.filterMap fun f =>
    f.version <|> inferVersionFromFilename isVersion f.filename).insertionSort (· ≤ ·)).dedup
  files := files.map (pep691File package)

/-! ### HTML -/

def asStr : ProjectStatus → String
  | .active => "active"
  | .archived => "archived"
  | .quarantined => "quarantined"
  | .deprecated => "deprecated"

section Html
variable (html : HtmlEscape)

def htmlHeadOpen : String :=
  "<html><head><meta name=\"pypi:repository-version\" content=\"" ++ apiVersion ++ "\">"

def statusMeta (status : ProjectStatusDoc) : String :=
  if isActive status.status then ""
  else "<meta name=\"pypi:project-status\" content=\"" ++ asStr status.status ++ "\">" ++
    match status.reason with
    | some reason => "<meta name=\"pypi:project-status-reason\" content=\"" ++
        html.encodeDoubleQuotedAttribute reason ++ "\">"
    | none => ""

def requiresAttr (f : FileMetadata) : String :=
  match f.requiresPython with
  | some rp => " data-requires-python=\"" ++ html.encodeDoubleQuotedAttribute rp ++ "\""
  | none => ""

def coreMetadataAttrs (f : FileMetadata) : String :=
  if f.coreMetadata then
    let value := match f.coreMetadataSha256 with
      | some sha => html.encodeDoubleQuotedAttribute ("sha256=" ++ sha)
      | none => "true"
    " data-core-metadata=\"" ++ value ++ "\" data-dist-info-metadata=\"" ++ value ++ "\""
  else ""

def provenanceAttr (pkgAttr : String) (f : FileMetadata) : String :=
  if f.provenance then
    " data-provenance=\"/files/" ++ pkgAttr ++ "/" ++ html.encodeDoubleQuotedAttribute f.filename ++
      ".provenance\""
  else ""

def yankedAttr (f : FileMetadata) : String :=
  match f.yanked with
  | .flag false => ""
  | .flag true => " data-yanked=\"\""
  | .reason reason => " data-yanked=\"" ++ html.encodeDoubleQuotedAttribute reason ++ "\""

def link (pkgAttr : String) (f : FileMetadata) : String :=
  "<a href=\"/files/" ++ pkgAttr ++ "/" ++ html.encodeDoubleQuotedAttribute f.filename ++ "#sha256=" ++
    html.encodeDoubleQuotedAttribute f.sha256 ++ "\"" ++
    (requiresAttr html f ++ coreMetadataAttrs html f ++ provenanceAttr html pkgAttr f ++ yankedAttr html f) ++
    ">" ++ html.encodeText f.filename ++ "</a><br/>"

def pep503ProjectHtml (package : String) (files : List FileMetadata) (status : ProjectStatusDoc) : String :=
  htmlHeadOpen ++ statusMeta html status ++ "<title>Links for " ++ html.encodeText package ++
    "</title></head><body>" ++
    String.join (files.map (link html (html.encodeDoubleQuotedAttribute package))) ++ "</body></html>"

end Html

/-! ### Reading the page -/

/-- The references that are written for characters of markup. -/
def decodeEntities : List Char → List Char
  | '&' :: 'a' :: 'm' :: 'p' :: ';' :: rest => '&' :: decodeEntities rest
  | '&' :: 'l' :: 't' :: ';' :: rest => '<' :: decodeEntities rest
  | '&' :: 'g' :: 't' :: ';' :: rest => '>' :: decodeEntities rest
  | '&' :: 'q' :: 'u' :: 'o' :: 't' :: ';' :: rest => '"' :: decodeEntities rest
  | c :: rest => c :: decodeEntities rest
  | [] => []

structure Element where
  attributes : List (String × String)
  text : String
  deriving DecidableEq

def decoded (element : MarkupPages.Element) : Element where
  attributes := element.1.map fun entry =>
    (String.ofList entry.1, String.ofList (decodeEntities entry.2))
  text := String.ofList (decodeEntities element.2)

/-- The elements of a name on a page. -/
def readElements (name page : String) : Option (List Element) :=
  (MarkupPages.lex none page.toList).map fun tokens =>
    (MarkupPages.elements name.toList tokens).map decoded

/-! ### What the JSON says of it -/

def Pep691File.coreMarks (file : Pep691File) : List (String × String) :=
  match file.coreMetadata with
  | none => []
  | some .available => [("data-core-metadata", "true"), ("data-dist-info-metadata", "true")]
  | some (.digest sha) =>
    [("data-core-metadata", "sha256=" ++ sha), ("data-dist-info-metadata", "sha256=" ++ sha)]

def Pep691File.yankMarks (file : Pep691File) : List (String × String) :=
  match file.yanked with
  | .flag false => []
  | .flag true => [("data-yanked", "")]
  | .reason reason => [("data-yanked", reason)]

def Pep691File.marks (file : Pep691File) : List (String × String) :=
  (file.requiresPython.map fun rp => ("data-requires-python", rp)).toList ++ file.coreMarks ++
    (file.provenance.map fun url => ("data-provenance", url)).toList ++ file.yankMarks

def Pep691File.sha256 (file : Pep691File) : String := (file.hashes.lookup "sha256").getD ""

def Pep691File.anchor (file : Pep691File) : Element where
  attributes := ("href", file.url ++ "#sha256=" ++ file.sha256) :: file.marks
  text := file.filename

def metaElement (name content : String) : Element where
  attributes := [("name", name), ("content", content)]
  text := ""

def Pep691PkgIndex.metas (index : Pep691PkgIndex) : List Element :=
  metaElement "pypi:repository-version" index.apiVersion ::
    match index.projectStatus with
    | none => []
    | some status => metaElement "pypi:project-status" (asStr status.status) ::
        (status.reason.map (metaElement "pypi:project-status-reason")).toList

end Pypiron.Render
