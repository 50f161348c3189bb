import Outreach.Files.FileError

/-!
# Failures

Every way in which a command can fail, its class, the words that announce it and the exit code
of the process. The class alone decides the exit code and the words in front.
-/

namespace Outreach

/-- The **class** of a failure: whose business it is to mend it. -/
inductive Failure.Class where
  /-- The command line names something that does not exist or reads as nothing. -/
  | user
  /-- Required deal fields are blank. -/
  | validation
  /-- A stored file could not be read or written. -/
  | store
  /-- The settings file could not be read or is not acceptable. -/
  | configuration
  deriving DecidableEq, Repr

namespace Failure.Class

/-- The exit code of a process that ends with this failure, which is that of its class. -/
def exitCode : Class → Nat
  | .user => 1
  | .validation => 2
  | .store => 3
  | .configuration => 4

/-- The words of a failure with those that its class puts in front. -/
def announce : Class → String → String
  | .user, words => words
  | .validation, words => words
  | .store, words => "Store operation failed: " ++ words
  | .configuration, words => "Invalid configuration: " ++ words

end Failure.Class

/-- What a text file named on the command line is read for. -/
inductive InputFile where
  | record
  | template
  deriving DecidableEq, Repr

/-- The word for the purpose of an input file, as it stands in the message that the file cannot be
read. -/
def InputFile.word : InputFile → String
  | .record => "record"
  | .template => "template"

/-- A **failure** of a command, by its cause, with the texts and paths that its message shows. -/
inductive Failure where
  /-- An assignment without an equals sign. -/
  | notAnAssignment (text : String)
  /-- An assignment with a blank key. -/
  | emptyAssignmentKey (text : String)
  /-- A record text that does not read as a flat map. -/
  | recordSyntax (detail : String)
  /-- A record text that gives a list or a map as the value of a field. -/
  | fieldNotPlain (field : String)
  /-- A hand-controller choice other than the two words. -/
  | unknownSendHandle (text : String)
  /-- The contact person or the name of the KOL is blank. -/
  | requiredFieldsBlank
  | presetNotFound (id : String)
  | presetNameBlank
  | presetToDeleteNotFound (id : String)
  | templateNotFound (id : String)
  | templateToChangeNotFound (id : String)
  | templateNameBlank
  | templateContentEmpty
  /-- The only template left cannot be deleted. -/
  | lastTemplate
  /-- The list of templates is empty. -/
  | noTemplate
  /-- A fan offer too short to be polished. -/
  | offerTooShort (minimum : Nat)
  | inputUnreadable (purpose : InputFile) (path : String) (error : FileError)
  | workingDirectoryLost (error : FileError)
  | dataDirectoryNotMade (path : String) (error : FileError)
  | parentNotMade (path : String) (error : FileError)
  /-- A path that does not end in a file name. -/
  | pathWithoutFileName (path : String)
  | temporaryNotMade (path : String) (error : FileError)
  | temporaryNotWritten (path : String) (error : FileError)
  | targetNotReplaced (path : String) (error : FileError)
  | storeUnreadable (path : String) (error : FileError)
  | storeSyntax (path : String) (detail : String)
  | settingsUnreadable (path : String) (error : FileError)
  | settingsSyntax (detail : String)
  | percentSuffixEmpty
  | separatorReserved (separator : Char)
  | tooManyFractionDigits (found : Nat)
  | timeoutZero
  | keyVariableBlank
  | modelBlank
  deriving DecidableEq, Repr

namespace Failure

/-- The class of a failure, which decides the words in front of its message and the exit code. -/
def kind : Failure → Class
  | .requiredFieldsBlank => .validation
  | .dataDirectoryNotMade .. | .parentNotMade .. | .pathWithoutFileName _
  | .temporaryNotMade .. | .temporaryNotWritten .. | .targetNotReplaced ..
  | .storeUnreadable .. | .storeSyntax .. => .store
  | .settingsUnreadable .. | .settingsSyntax _ | .percentSuffixEmpty | .separatorReserved _
  | .tooManyFractionDigits _ | .timeoutZero | .keyVariableBlank | .modelBlank => .configuration
  | _ => .user

/-- The largest number of fraction digits that settings may ask for. The message of the failure
names it too. -/
def fractionDigitLimit : Nat := 20

/-- The words of a failure, without those of its class: one text for each cause, with what it
names put in. -/
def words : Failure → String
  | .notAnAssignment text => s!"invalid assignment '{text}': expected KEY=VALUE"
  | .emptyAssignmentKey text => s!"invalid assignment '{text}': key must not be empty"
  | .recordSyntax detail => s!"failed to parse record: {detail}"
  | .fieldNotPlain field => s!"failed to parse record: field '{field}' must be a plain value"
  | .unknownSendHandle text => s!"invalid sendHandle '{text}': expected '是' or '否'"
  | .requiredFieldsBlank => "請填寫所有必填欄位 (聯絡人, KOL)"
  | .presetNotFound id =>
    s!"preset '{id}' not found.\n\nUse `kolmsg preset list` to see available presets."
  | .presetNameBlank => "方案名稱不能為空！"
  | .presetToDeleteNotFound id => s!"刪除失敗，找不到對應的方案。 (id '{id}')"
  | .templateNotFound id =>
    s!"template '{id}' not found.\n\nUse `kolmsg template list` to see available templates."
  | .templateToChangeNotFound id => s!"template '{id}' not found"
  | .templateNameBlank => "範本名稱不能為空！"
  | .templateContentEmpty => "沒有可用的範本內容來儲存。"
  | .lastTemplate => "無法刪除最後一個範本。"
  | .noTemplate => "沒有可用的訊息範本。"
  | .offerTooShort minimum => s!"請至少輸入 {minimum} 個字的粉絲優惠內容才能進行潤飾。"
  | .inputUnreadable purpose path error =>
    s!"failed to read {purpose.word} file '{path}': {error.message}"
  | .workingDirectoryLost error =>
    s!"failed to get current working directory: {error.message}"
  | .dataDirectoryNotMade path error =>
    s!"failed to create data directory '{path}': {error.message}"
  | .parentNotMade path error => s!"failed to create directory '{path}': {error.message}"
  | .pathWithoutFileName path => s!"invalid file path '{path}'"
  | .temporaryNotMade path error =>
    s!"failed to create temporary file '{path}': {error.message}"
  | .temporaryNotWritten path error =>
    s!"failed to write temporary file '{path}': {error.message}"
  | .targetNotReplaced path error => s!"failed to atomically replace '{path}': {error.message}"
  | .storeUnreadable path error => s!"failed to read '{path}': {error.message}"
  | .storeSyntax path detail =>
    s!"failed to parse '{path}': {detail}\n\nFix or remove the file; it was left untouched."
  | .settingsUnreadable path error => s!"failed to read config file '{path}': {error.message}"
  | .settingsSyntax detail => s!"failed to parse config YAML: {detail}"
  | .percentSuffixEmpty => "format.percent_suffix must not be empty"
  | .separatorReserved separator =>
    s!"format.grouping_separator must not be a digit or '.' (found '{separator}')"
  | .tooManyFractionDigits found =>
    s!"format.max_fraction_digits must be at most {fractionDigitLimit} (found {found})"
  | .timeoutZero => "polish.timeout_secs must be greater than 0"
  | .keyVariableBlank => "polish.api_key_env must not be empty"
  | .modelBlank => "polish.model must not be empty"

/-- The full words of a failure: those of its class, then its own. -/
def message (f : Failure) : String :=
  f.kind.announce f.words

/-- The exit code of a process that ends with this failure. -/
def exitCode (f : Failure) : Nat :=
  f.kind.exitCode

end Failure

end Outreach
