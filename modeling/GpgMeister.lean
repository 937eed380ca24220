import GpgMeister.Lib.System
import GpgMeister.Lib.Text
import GpgMeister.Lib.Utf8
import GpgMeister.Lib.Json
import GpgMeister.Lib.JsonRoundTrip
import GpgMeister.Lib.Dict
import GpgMeister.Lib.HashChain
import GpgMeister.Errors
import GpgMeister.Storage.FileLock
import GpgMeister.Storage.SecretKeys
import GpgMeister.Services.StatusStream
import GpgMeister.Services.SignatureStatus
import GpgMeister.Storage.AuditLog
import GpgMeister.Storage.AuditChain
import GpgMeister.Storage.AuditTip
import GpgMeister.Lib.Base64
import GpgMeister.Lib.Program
import GpgMeister.Models.KdfParams
import GpgMeister.Lib.Msgpack
import GpgMeister.Models.KeyInfo
import GpgMeister.Models.Vault
import GpgMeister.Models.VaultRoundTrip
import GpgMeister.Security.Encryption
import GpgMeister.Security.VaultFormat
import GpgMeister.Security.VaultKeyslots
import GpgMeister.Services.GpgService
import GpgMeister.Services.VaultPayload
import GpgMeister.Services.VaultService
import GpgMeister.Services.VaultCardPin
import GpgMeister.Services.VaultFrames
import GpgMeister.Lib.Latch
import GpgMeister.Services.Keyring
import GpgMeister.Services.VaultImport
import GpgMeister.Services.VaultDerivations
import GpgMeister.Lib.FirstOf
import GpgMeister.Services.VaultSlotSearch
import GpgMeister.Services.VaultFaults
import GpgMeister.Services.VaultImportRecords
import GpgMeister.Services.VaultCreateRecords
import GpgMeister.Services.LegacyPayload
import GpgMeister.Services.LegacyRewrite
import GpgMeister.Models.Smartcard
import GpgMeister.Services.CardScripts
import GpgMeister.Services.SmartcardService
import GpgMeister.Services.SmartcardGuards
import GpgMeister.Lib.FileTree
import GpgMeister.Services.FolderService
import GpgMeister.Services.FolderArchive
import GpgMeister.Services.FolderRoundTrip
import GpgMeister.Security.VaultFormatErrors
import GpgMeister.Services.PayloadSlices
import GpgMeister.Storage.AuditCrash
import GpgMeister.Storage.AuditMixed
import GpgMeister.Storage.AuditDropped
import GpgMeister.Services.KeyImport
import GpgMeister.Lib.FiniteTree
import GpgMeister.Storage.FactoryReset
import GpgMeister.Lib.Toml
import GpgMeister.Models.Config
import GpgMeister.Services.ConfigService
import GpgMeister.Ui.SettingsSession
import GpgMeister.Services.SignatureOrder
import GpgMeister.Lib.IsoDate
import GpgMeister.Lib.Pattern
import GpgMeister.Services.CardScriptLines
import GpgMeister.Services.SmartcardProbe
import GpgMeister.Services.ValidationGrammar
import GpgMeister.Services.KeyListing
import GpgMeister.Services.ListKeys
import GpgMeister.Lib.JsonCompact
import GpgMeister.Services.MessageService
import GpgMeister.Lib.Monitor
import GpgMeister.Models.KeyUnlock
import GpgMeister.Storage.MetadataStore
import GpgMeister.Storage.UnlockSlots
import GpgMeister.Security.KeyUnlock
import GpgMeister.Services.FidoService
import GpgMeister.Services.KeyUnlockService
import GpgMeister.Services.ArchiveRoot
import GpgMeister.Security.PasswordPolicy
import GpgMeister.Storage.SecretWalkers
import GpgMeister.Ui.KeyCreateForm
import GpgMeister.Lib.Ownership
import GpgMeister.Ui.VaultExportForm
import GpgMeister.Lib.Determined
import GpgMeister.Services.VaultReopen
import GpgMeister.Ui.VaultImportWizard
import GpgMeister.Services.CardTranscript
import GpgMeister.Services.GpgPipes
import GpgMeister.Lib.Threads
import GpgMeister.Storage.AtomicWrite
import GpgMeister.Ui.BackupReminder
import GpgMeister.Lib.Search
import GpgMeister.Startup.EnvironmentCheck
import GpgMeister.Startup.GpgDetector
import GpgMeister.Startup.ResolveGpg
import GpgMeister.Ui.Clipboard
import GpgMeister.Lib.Agree
import GpgMeister.Services.FolderExtract
import GpgMeister.Services.KeyGeneration
import GpgMeister.Services.EnrolmentRuns
import GpgMeister.Services.KeyCreation
import GpgMeister.Services.KeyUnlockRuns
import GpgMeister.Services.VaultSealing
import GpgMeister.Services.BackupRestore
import GpgMeister.Services.VaultHeaders
import GpgMeister.Services.FolderCalls
import GpgMeister.Ui.EncryptForm
import GpgMeister.Lib.Mailbox
import GpgMeister.Ui.OperationViewModel
import GpgMeister.Ui.DecryptTab
